import Reldex.DriverContract

/-! The controller of one session on the UI thread. It submits requests to the hub and takes
their replies; the grid shows the rows of the result that it fetches. By its contract the hub
answers each accepted request once, in the order of submission until the session ends. -/
namespace Reldex.Ui
open List Nat

inductive EventKind where
  | opened | executed | fetched | resultClosed | sessionClosed
  deriving DecidableEq, Repr

structure ColumnDescription where
  name : String
  kind : Int
  deriving DecidableEq, Repr

structure Batch where
  result : Nat
  rows : Nat
  deriving DecidableEq, Repr

structure BatchEntry where
  batch : Batch
  firstRow : Nat
  rows : Nat
  deriving DecidableEq, Repr

structure ResultTableModel where
  columns : List ColumnDescription
  batches : List BatchEntry
  rowCount : Nat
  rowLimitReached : Bool
  maxRows : Nat
  deriving DecidableEq, Repr

namespace ResultTableModel

def beginResult (columns : List ColumnDescription) (model : ResultTableModel) : ResultTableModel :=
  { model with columns := columns, batches := [], rowCount := 0, rowLimitReached := false }

def reset (model : ResultTableModel) : ResultTableModel := model.beginResult []

def insertRows (batch : Batch) (rows : Nat) (model : ResultTableModel) : ResultTableModel :=
  { model with
    batches := model.batches ++ [⟨batch,model.rowCount,rows⟩]
    rowCount := model.rowCount + rows }

/-- A batch that does not fit below the ceiling is cut, and from then on nothing fits. -/
def applyBatch (batch : Option Batch) (rows : Nat) (model : ResultTableModel) : ResultTableModel :=
  match batch with
  | none => model
  | some batch =>
    if rows = 0 then model
    else
      let room := model.maxRows - model.rowCount
      if room < rows then
        let full := { model with rowLimitReached := true }
        if room = 0 then full else full.insertRows batch room
      else model.insertRows batch rows

def setMaxRows (rows : Int) (model : ResultTableModel) : ResultTableModel := { model with maxRows := rows.toNat }

end ResultTableModel

/-- `SessionController::State`. -/
inductive ControllerState where
  | idle | opening | ready | executing | fetching | resultComplete | closing | closed | failed
  deriving DecidableEq, Repr

/-- A number that is clamped from below by one. -/
abbrev Positive := { n : Nat // 0 < n }

def Positive.clamp (n : Int) : Positive := ⟨max 1 n.toNat,lt_of_lt_of_le one_pos (le_max_left ..)⟩

structure SessionController where
  model : ResultTableModel
  state : ControllerState
  sessionId : Nat
  resultId : Nat
  nextRequestId : Nat
  outstanding : List (Nat × EventKind)
  rowsFetched : Nat
  rowsAffected : Option Nat
  fetchesInFlight : Nat
  pendingFetchRequests : Nat
  exhausted : Bool
  hasResult : Bool
  cancelKind : Int
  closeOutcome : Int
  transactionPossiblyActive : Bool
  terminated : Bool
  transactionPossiblyLost : Bool
  error : Option DbError
  maxFetchesInFlight : Positive
  fetchRows : Positive
  autoFetch : Bool
  runOnOpen : Bool

def SessionController.new (maxRows : Nat) (maxFetchesInFlight fetchRows : Positive) (autoFetch : Bool) :
    SessionController where
  model := ⟨[],[],0,false,maxRows⟩
  state := .idle
  sessionId := 0
  resultId := 0
  nextRequestId := 1
  outstanding := []
  rowsFetched := 0
  rowsAffected := none
  fetchesInFlight := 0
  pendingFetchRequests := 0
  exhausted := false
  hasResult := false
  cancelKind := 0
  closeOutcome := 0
  transactionPossiblyActive := false
  terminated := false
  transactionPossiblyLost := false
  error := none
  maxFetchesInFlight := maxFetchesInFlight
  fetchRows := fetchRows
  autoFetch := autoFetch
  runOnOpen := false

structure Pending where
  request : Nat
  kind : EventKind
  result : Nat
  deriving DecidableEq, Repr

/-- The hub's side of the session: what it has yet to answer, in the order of submission, the
key of the next result, whether the session has ended and whether that was reported. -/
structure HubSide where
  pending : List Pending
  nextResultId : Nat
  ended : Bool
  retired : Bool

inductive Answer where
  | failed
  | plain
  | opened (result : Nat)
  deriving DecidableEq, Repr

/-- The controller and the hub's side; and a record: the newest statement that was accepted, as
long as its result was not closed, and its answer. -/
structure System extends SessionController where
  hub : HubSide
  newest : Option Nat
  answer : Option Answer

def System.start (controller : SessionController) : System := ⟨controller,⟨[],1,false,false⟩,none,none⟩

/-- What the hub says to a submission and how it describes a result. -/
structure Env where
  session : Positive
  refusal : Nat → Option DbError
  gone : DbError
  describe : Nat → List ColumnDescription

namespace System
variable (env : Env)

def numbered (s : System) : System := { s with nextRequestId := s.nextRequestId + 1 }

def accepted (kind : EventKind) (result : Nat) (s : System) : System :=
  { s with
    nextRequestId := s.nextRequestId + 1
    outstanding := s.outstanding ++ [(s.nextRequestId,kind)]
    hub := { s.hub with pending := s.hub.pending ++ [⟨s.nextRequestId,kind,result⟩] } }

/-- `nextRequest` and the call that submits it, with the status that this returns. A session
whose end was reported takes nothing. -/
def submit (kind : EventKind) (result : Nat) (s : System) : Option DbError × System :=
  match if s.hub.retired then some env.gone else env.refusal s.nextRequestId with
  | some error => (some error,s.numbered)
  | none => (none,s.accepted kind result)

/-- `takeThreadLocalError` and the state `Failed`. -/
def fail (error : DbError) (s : System) : System := { s with error := some error, state := .failed }

def openSession (s : System) : Bool × System :=
  if s.sessionId ≠ 0 then (false,s)
  else
    match submit env .opened 0 { s with error := none } with
    | (some error,s) => (false,s.fail error)
    | (none,s) => (true,{ s with sessionId := env.session, state := .opening })

def submitCloseResult (result : Nat) (s : System) : Bool × System :=
  if s.sessionId = 0 ∨ result = 0 then (false,s)
  else
    match submit env .resultClosed result s with
    | (some error,s) => (false,{ s with error := some error })
    | (none,s) => (true,s)

def closeReplaced (s : System) : System :=
  if s.resultId ≠ 0 then (submitCloseResult env s.resultId s).2 else s

def clearGrid (s : System) : System :=
  { s with
    model := s.model.beginResult []
    resultId := 0
    hasResult := false
    exhausted := false
    rowsFetched := 0
    rowsAffected := none
    pendingFetchRequests := 0 }

def cleared (s : System) : System := (closeReplaced env { s with error := none }).clearGrid

def started (request : Nat) (s : System) : System :=
  { s with state := .executing, newest := some request, answer := none }

def execute (s : System) : Bool × System :=
  if s.sessionId = 0 then (false,s)
  else
    match submit env .executed 0 (s.cleared env) with
    | (some error,s) => (false,s.fail error)
    | (none,next) => (true,next.started (s.cleared env).nextRequestId)

def closeResult (s : System) : Bool × System :=
  if s.resultId = 0 then (false,s)
  else
    match submitCloseResult env s.resultId s with
    | (false,s) => (false,s)
    | (true,s) => (true,{ s with
        resultId := 0
        hasResult := false
        exhausted := true
        model := s.model.reset
        newest := none })

def closeSession (s : System) : Bool × System :=
  if s.sessionId = 0 then (false,s)
  else
    match submit env .sessionClosed 0 s with
    | (some error,s) => (false,{ s with error := some error })
    | (none,s) => (true,{ s with state := .closing })

def canFetchMoreRows (s : System) : Bool :=
  s.hasResult && !s.exhausted && s.sessionId != 0 && s.resultId != 0 && !s.model.rowLimitReached

/-- The loop of `submitFetches`, with so many slots free. -/
def fillSlots : Nat → System → System
  | 0,s => s
  | free + 1,s =>
    if s.autoFetch || 0 < s.pendingFetchRequests then
      match submit env .fetched s.resultId s with
      | (some error,s) => s.fail error
      | (none,s) => fillSlots free { s with
          fetchesInFlight := s.fetchesInFlight + 1
          pendingFetchRequests := if s.autoFetch then s.pendingFetchRequests else s.pendingFetchRequests - 1 }
    else s

def submitFetches (s : System) : System :=
  if !s.hasResult || s.exhausted || s.model.rowLimitReached then s
  else fillSlots env (s.maxFetchesInFlight - s.fetchesInFlight) s

def fetchMoreRows (s : System) : System :=
  if !s.canFetchMoreRows then s
  else if s.autoFetch then submitFetches env s
  else submitFetches env { s with
    pendingFetchRequests := min (s.pendingFetchRequests + 1) s.maxFetchesInFlight }

end System

inductive HubEvent where
  | opened (request : Nat) (error : Option DbError) (cancelKind : Int)
  | executed (request : Nat) (error : Option DbError) (result : Option Nat) (rowsAffected : Option Nat)
  | fetched (request : Nat) (error : Option DbError) (result : Option Nat) (batch : Option Batch) (rowCount : Nat)
  | resultClosed (request : Nat) (error : Option DbError)
  | sessionClosed (request : Nat) (error : Option DbError) (closeOutcome : Int) (stillOpen : Bool)
  | transactionState (possiblyActive : Bool)
  | terminal (lost transactionPossiblyLost : Bool) (error : Option DbError)
  | ignored

def HubEvent.answered : HubEvent → Option (Nat × Option DbError)
  | .opened request error _ | .executed request error _ _ | .fetched request error _ _ _
  | .resultClosed request error | .sessionClosed request error _ _ => some (request,error)
  | _ => none

namespace System
variable (env : Env)

/-- The bookkeeping of a reply: its request is answered and its error shown. -/
def settle (request : Nat) (error : Option DbError) (s : System) : System :=
  { s with
    outstanding := s.outstanding.filter fun entry => entry.1 ≠ request
    error := error.or s.error }

def onOpened (error : Option DbError) (cancelKind : Int) (s : System) : System :=
  let s := { s with cancelKind := cancelKind }
  if error.isSome then { s with state := .failed }
  else if s.runOnOpen then (execute env { s with state := .ready }).2
  else { s with state := .ready }

/-- What the newest statement was answered is written down. -/
def note (request : Nat) (answer : Answer) (s : System) : System :=
  { s with answer := if s.newest = some request then some answer else s.answer }

def showResult (result : Nat) (s : System) : System :=
  { s with
    resultId := result
    hasResult := true
    model := s.model.beginResult (if s.sessionId = 0 ∨ result = 0 then [] else env.describe result)
    state := .fetching }

/-- It does not look at which statement was answered. -/
def onExecuted (request : Nat) (error : Option DbError) (result rowsAffected : Option Nat) (s : System) : System :=
  if error.isSome then { s.note request .failed with state := .failed }
  else
    let s := { s with rowsAffected := rowsAffected }
    match result with
    | some result => submitFetches env ((s.note request (.opened result)).showResult env result)
    | none => { s.note request .plain with state := .ready }

def onFetched (error : Option DbError) (result : Option Nat) (batch : Option Batch) (rowCount : Nat)
    (s : System) : System :=
  let s := { s with fetchesInFlight := s.fetchesInFlight - 1 }
  if !s.hasResult || result.getD 0 != s.resultId then submitFetches env s
  else if error.isSome then { s with state := .failed }
  else
    let s := { s with
      model := s.model.applyBatch batch rowCount
      rowsFetched := s.rowsFetched + rowCount
      exhausted := s.exhausted || rowCount == 0 }
    if s.exhausted && s.fetchesInFlight == 0 then { s with state := .resultComplete }
    else submitFetches env s

def onSessionClosed (closeOutcome : Int) (stillOpen : Bool) (s : System) : System :=
  { s with closeOutcome := closeOutcome, state := if stillOpen then .ready else .closed }

def handleTerminal (lost transactionPossiblyLost : Bool) (error : Option DbError) (s : System) : System :=
  { s with
    terminated := true
    transactionPossiblyLost := transactionPossiblyLost
    error := error.or s.error
    state := if lost then .failed else if s.state = .failed then .failed else .closed
    transactionPossiblyActive := false }

def notify (event : HubEvent) (s : System) : System :=
  match event with
  | .transactionState possiblyActive => { s with transactionPossiblyActive := possiblyActive }
  | .terminal lost transactionPossiblyLost error => s.handleTerminal lost transactionPossiblyLost error
  | _ => s

/-- After the session's `TERMINAL` a reply moves the state no more. -/
def late (event : HubEvent) (s : System) : System :=
  match event with
  | .executed request _ _ _ => s.note request .failed
  | .sessionClosed _ _ closeOutcome _ => { s with closeOutcome := closeOutcome }
  | _ => s

def act (event : HubEvent) (s : System) : System :=
  match event with
  | .opened _ error cancelKind => s.onOpened env error cancelKind
  | .executed request error result rowsAffected => s.onExecuted env request error result rowsAffected
  | .fetched _ error result batch rowCount => s.onFetched env error result batch rowCount
  | .sessionClosed _ _ closeOutcome stillOpen => s.onSessionClosed closeOutcome stillOpen
  | _ => s

def handleEvent (event : HubEvent) (s : System) : System :=
  match event.answered with
  | none => s.notify event
  | some (request,error) =>
    let s := s.settle request error
    if s.terminated then s.late event else s.act env event

end System

/-- What may answer a request; a statement that returns rows gets the next result. -/
inductive Answers (nextResultId : Nat) : Pending → HubEvent → Prop where
  | opened (request : Nat) (error : Option DbError) (cancelKind : Int) :
      Answers nextResultId ⟨request,.opened,about⟩ (.opened request error cancelKind)
  | failed (request : Nat) (error : DbError) (rowsAffected : Option Nat) :
      Answers nextResultId ⟨request,.executed,about⟩ (.executed request (some error) none rowsAffected)
  | executed (request : Nat) (rowsAffected : Option Nat) :
      Answers nextResultId ⟨request,.executed,about⟩ (.executed request none none rowsAffected)
  | result (request : Nat) (rowsAffected : Option Nat) :
      Answers nextResultId ⟨request,.executed,about⟩ (.executed request none (some nextResultId) rowsAffected)
  | unfetched (request : Nat) (error : DbError) :
      Answers nextResultId ⟨request,.fetched,about⟩ (.fetched request (some error) (some about) none 0)
  | fetched (request rows : Nat) :
      Answers nextResultId ⟨request,.fetched,about⟩ (.fetched request none (some about) (some ⟨about,rows⟩) rows)
  | resultClosed (request : Nat) (error : Option DbError) :
      Answers nextResultId ⟨request,.resultClosed,about⟩ (.resultClosed request error)
  | sessionClosed (request : Nat) (error : Option DbError) (closeOutcome : Int) (stillOpen : Bool) :
      Answers nextResultId ⟨request,.sessionClosed,about⟩ (.sessionClosed request error closeOutcome stillOpen)

/-- A statement or a fetch that succeeded: once the session has ended there are none. -/
def HubEvent.succeeds : HubEvent → Bool
  | .executed _ error _ _ | .fetched _ error _ _ _ => error.isNone
  | _ => false

def HubEvent.opens : HubEvent → Nat
  | .executed _ _ (some _) _ => 1
  | _ => 0

/-- The events that the contract permits. Replies come in the order of submission; the failures
at the end of a session may come in any order. -/
inductive Delivers : HubSide → HubEvent → HubSide → Prop where
  | replied (queue : hub.pending = oldest :: rest) (alive : hub.ended = false ∨ event.succeeds = false)
      (answers : Answers hub.nextResultId oldest event) :
      Delivers hub event { hub with pending := rest, nextResultId := hub.nextResultId + event.opens }
  | failed (ended : hub.ended = true) (queue : hub.pending = before ++ p :: rest) (fails : event.succeeds = false)
      (answers : Answers hub.nextResultId p event) : Delivers hub event { hub with pending := before ++ rest }
  | transactionState (possiblyActive : Bool) : Delivers hub (.transactionState possiblyActive) hub
  | ignored : Delivers hub .ignored hub
  | terminal (ended : hub.ended = true) (fresh : hub.retired = false) (lost transactionPossiblyLost : Bool) (error : Option DbError) :
      Delivers hub (.terminal lost transactionPossiblyLost error) { hub with retired := true }

inductive Call where
  | openSession | execute | closeResult | closeSession | fetchMoreRows
  | setMaxFetchesInFlight (fetches : Int)
  | setFetchRows (rows : Int)
  | setAutoFetch (automatic : Bool)
  | setRunOnOpen (run : Bool)
  | setMaxRows (rows : Int)

def Call.perform (env : Env) (s : System) : Call → System
  | .openSession => (s.openSession env).2
  | .execute => (s.execute env).2
  | .closeResult => (s.closeResult env).2
  | .closeSession => (s.closeSession env).2
  | .fetchMoreRows => s.fetchMoreRows env
  | .setMaxFetchesInFlight fetches => { s with maxFetchesInFlight := .clamp fetches }
  | .setFetchRows rows => { s with fetchRows := .clamp rows }
  | .setAutoFetch automatic => { s with autoFetch := automatic }
  | .setRunOnOpen run => { s with runOnOpen := run }
  | .setMaxRows rows => { s with model := s.model.setMaxRows rows }

inductive Move where
  | call (call : Call)
  | event (event : HubEvent)
  | ends

/-- A call, an event that the hub may deliver, or the end of the session. -/
inductive Step (env : Env) : System → Move → System → Prop where
  | call (call : Call) : Step env s (.call call) (call.perform env s)
  | event (delivers : Delivers s.hub event hub) : Step env s (.event event) ({ s with hub := hub }.handleEvent env event)
  | ends : Step env s .ends { s with hub := { s.hub with ended := true } }

variable {env : Env} {s : System} {kind : EventKind} {about : Nat}

namespace System

theorem submit_cases (env : Env) (kind : EventKind) (about : Nat) (s : System) :
    (∃ error, s.submit env kind about = (some error,s.numbered)) ∨
    (s.hub.retired = false ∧ s.submit env kind about = (none,s.accepted kind about)) := by
  unfold submit
  cases gone : s.hub.retired with
  | true => exact .inl ⟨env.gone,by simp⟩
  | false =>
    cases refused : env.refusal s.nextRequestId with
    | some error => exact .inl ⟨error,by simp⟩
    | none => exact .inr ⟨rfl,by simp⟩

def asked (s : System) : System :=
  { s.accepted .fetched s.resultId with
    fetchesInFlight := s.fetchesInFlight + 1
    pendingFetchRequests := if s.autoFetch then s.pendingFetchRequests else s.pendingFetchRequests - 1 }

theorem fillSlots_keeps {fact : System → Prop} (asked : ∀ s, fact s → s.hub.retired = false → fact s.asked)
    (refused : ∀ s error, fact s → fact (s.numbered.fail error)) (free : Nat) (holds : fact s) :
    fact (fillSlots env free s) := by
  induction free generalizing s with
  | zero => exact holds
  | succ free ih =>
    unfold fillSlots
    split
    · obtain ⟨error,refusal⟩ | ⟨alive,acceptance⟩ := submit_cases env .fetched s.resultId s
      · rw [refusal]
        exact refused s error holds
      · rw [acceptance]
        exact ih (asked s holds alive)
    · exact holds

theorem submitFetches_keeps {fact : System → Prop} (asked : ∀ s, fact s → s.hub.retired = false → fact s.asked)
    (refused : ∀ s error, fact s → fact (s.numbered.fail error)) (holds : fact s) :
    fact (submitFetches env s) := by
  unfold submitFetches
  split
  · exact holds
  · exact fillSlots_keeps asked refused _ holds

theorem fillSlots_fills (env : Env) (automatic : s.autoFetch = true) (free : Nat) :
    (fillSlots env free s).state = .failed ∨ s.fetchesInFlight + free ≤ (fillSlots env free s).fetchesInFlight := by
  induction free generalizing s with
  | zero => exact .inr le_rfl
  | succ free ih =>
    unfold fillSlots
    simp only [automatic,Bool.true_or,if_true]
    obtain ⟨error,refusal⟩ | ⟨alive,acceptance⟩ := submit_cases env .fetched s.resultId s
    · rw [refusal]
      exact .inl rfl
    · rw [acceptance]
      have later : (fillSlots env free s.asked).state = .failed ∨
          s.fetchesInFlight + 1 + free ≤ (fillSlots env free s.asked).fetchesInFlight := ih automatic
      refine later.imp id fun filled => ?_
      change _ ≤ (fillSlots env free s.asked).fetchesInFlight
      omega

end System

structure Books (s : System) : Prop where
  ordered : s.hub.pending.Pairwise fun p q => p.request < q.request
  numbered : ∀ p ∈ s.hub.pending, p.request < s.nextRequestId
  outstanding : ∀ p ∈ s.hub.pending, (p.request,p.kind) ∈ s.outstanding
  results : ∀ p ∈ s.hub.pending, p.result < s.hub.nextResultId
  shown : s.resultId < s.hub.nextResultId
  has : s.hasResult = true ↔ s.resultId ≠ 0

namespace Books

theorem accepted (books : Books s) (known : about < s.hub.nextResultId) : Books (s.accepted kind about) where
  ordered := by
    refine pairwise_append.mpr ⟨books.ordered,pairwise_singleton _ _,fun p member q last => ?_⟩
    obtain rfl := mem_singleton.mp last
    exact books.numbered p member
  numbered p member := by
    obtain old | rfl := mem_append.mp member |>.imp_right mem_singleton.mp
    · exact (books.numbered p old).trans (lt_succ_self _)
    · exact lt_succ_self _
  outstanding p member := by
    obtain old | rfl := mem_append.mp member |>.imp_right mem_singleton.mp
    · exact mem_append_left _ (books.outstanding p old)
    · exact mem_append_right _ (mem_singleton_self _)
  results p member := by
    obtain old | rfl := mem_append.mp member |>.imp_right mem_singleton.mp
    · exact books.results p old
    · exact known
  shown := books.shown
  has := books.has

end Books

theorem Books.replied (books : Books s) (queue : s.hub.pending = before ++ p :: rest) (fresh : s.hub.nextResultId ≤ n)
    (error : Option DbError) :
    Books ({ s with hub := { s.hub with pending := before ++ rest, nextResultId := n } }.settle p.request error) := by
  have fewer : (before ++ rest).Sublist s.hub.pending := by
    rw [queue]
    exact List.Sublist.append_left (sublist_cons_self _ _) _
  have apart : ∀ q ∈ before ++ rest, q.request ≠ p.request := by
    have ordered := queue ▸ books.ordered
    obtain ⟨_,later,across⟩ := pairwise_append.mp ordered
    intro q member
    obtain old | new := mem_append.mp member
    · exact (across q old p mem_cons_self).ne
    · exact ((pairwise_cons.mp later).1 q new).ne'
  exact {
    ordered := books.ordered.sublist fewer
    numbered := fun q member => books.numbered q (fewer.mem member)
    outstanding := fun q member => mem_filter.mpr
      ⟨books.outstanding q (fewer.mem member),decide_eq_true (apart q member)⟩
    results := fun q member => (books.results q (fewer.mem member)).trans_le fresh
    shown := books.shown.trans_le fresh
    has := books.has }

/-- A reply: the request that it answers is the oldest while the session lasts. -/
inductive Replied (hub : HubSide) (event : HubEvent) : HubSide → Prop where
  | mk (queue : hub.pending = before ++ p :: rest) (answers : Answers hub.nextResultId p event)
      (fifo : hub.ended = false → before = []) (alive : event.succeeds = true → hub.ended = false) :
      Replied hub event { hub with pending := before ++ rest, nextResultId := hub.nextResultId + event.opens }

theorem Answers.opens_nothing (answers : Answers n p event) (fails : event.succeeds = false) : event.opens = 0 := by
  cases answers <;> first | rfl | cases fails

theorem Delivers.cases {hub next : HubSide} {event : HubEvent} (delivers : Delivers hub event next) :
    Replied hub event next ∨ (event = .ignored ∧ next = hub) ∨
    (∃ possiblyActive, event = .transactionState possiblyActive ∧ next = hub) ∨
    ∃ lost transactionPossiblyLost error, event = .terminal lost transactionPossiblyLost error ∧ hub.ended = true ∧
      next = { hub with retired := true } := by
  cases delivers with
  | replied queue alive answers =>
    exact .inl (.mk ((nil_append _).symm ▸ queue) answers (fun _ => rfl)
      fun succeeds => alive.resolve_right (by simp [succeeds]))
  | failed ended queue fails answers =>
    have replied := Replied.mk queue answers (fun alive => absurd (ended.symm.trans alive) (by decide))
      fun succeeds => absurd (fails.symm.trans succeeds) (by decide)
    rw [answers.opens_nothing fails] at replied
    exact .inl replied
  | transactionState possiblyActive => exact .inr (.inr (.inl ⟨possiblyActive,rfl,rfl⟩))
  | ignored => exact .inr (.inl ⟨rfl,rfl⟩)
  | terminal ended fresh lost transactionPossiblyLost error =>
    exact .inr (.inr (.inr ⟨lost,transactionPossiblyLost,error,rfl,ended,rfl⟩))

/-- The next submission is accepted. -/
def System.Accepts (env : Env) (s : System) : Prop := s.hub.retired = false ∧ env.refusal s.nextRequestId = none

theorem submitCloseResult_accepts (opened : s.sessionId ≠ 0) (shown : about ≠ 0) (accepts : s.Accepts env) :
    (s.submitCloseResult env about).1 = true := by
  simp [System.submitCloseResult,System.submit,opened,shown,accepts.1,accepts.2]

theorem submitCloseResult_cases (env : Env) (result : Nat) (s : System) :
    (∃ next, s.submitCloseResult env result = (false,next) ∧ (next = s ∨ ∃ error, next = { s.numbered with error := error })) ∨
    (s.hub.retired = false ∧ s.submitCloseResult env result = (true,s.accepted .resultClosed result)) := by
  unfold System.submitCloseResult
  split
  · exact .inl ⟨s,rfl,.inl rfl⟩
  obtain ⟨error,refusal⟩ | ⟨alive,acceptance⟩ := System.submit_cases env .resultClosed result s
  · exact .inl ⟨_,by rw [refusal],.inr ⟨some error,rfl⟩⟩
  · exact .inr ⟨alive,by rw [acceptance]⟩

theorem execute_cases (env : Env) (s : System) :
    s.execute env = (false,s) ∨ (∃ error, s.execute env = (false,(s.cleared env).numbered.fail error)) ∨
    ((s.cleared env).hub.retired = false ∧
      s.execute env = (true,((s.cleared env).accepted .executed 0).started (s.cleared env).nextRequestId)) := by
  unfold System.execute
  split
  · exact .inl rfl
  obtain ⟨error,refusal⟩ | ⟨alive,acceptance⟩ := System.submit_cases env .executed 0 (s.cleared env)
  · exact .inr (.inl ⟨error,by rw [refusal]⟩)
  · exact .inr (.inr ⟨alive,by rw [acceptance]⟩)

theorem Answers.answered (answers : Answers n p event) : ∃ error, event.answered = some (p.request,error) := by
  cases answers <;> exact ⟨_,rfl⟩

end Reldex.Ui
