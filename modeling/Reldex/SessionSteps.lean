import Reldex.SessionController

/-! What a step of the controller does, said once: the invariants split these cases and look into
no function of it. -/
namespace Reldex.Ui
open Nat

def Alike (s t : System) : Prop :=
  s.nextRequestId ≤ t.nextRequestId ∧ t = { s with
    sessionId := t.sessionId
    nextRequestId := t.nextRequestId
    rowsFetched := t.rowsFetched
    rowsAffected := t.rowsAffected
    pendingFetchRequests := t.pendingFetchRequests
    cancelKind := t.cancelKind
    closeOutcome := t.closeOutcome
    transactionPossiblyActive := t.transactionPossiblyActive
    transactionPossiblyLost := t.transactionPossiblyLost
    error := t.error
    fetchRows := t.fetchRows
    runOnOpen := t.runOnOpen }

/-- The result that a statement replaces is closed, or that was refused or not needed. -/
inductive Replaces (env : Env) (s : System) : System → Prop where
  | kept (refused : s.resultId ≠ 0 → ¬s.Accepts env) (same : Alike s t) : Replaces env s t
  | closed (alive : s.hub.retired = false) (same : Alike (s.accepted .resultClosed s.resultId) t) : Replaces env s t

inductive Executes (env : Env) (s : System) : System → Prop where
  | unopened : Executes env s s
  | refused (replaces : Replaces env s u) (same : Alike { u.clearGrid with state := .failed } t) : Executes env s t
  | started (replaces : Replaces env s u) (alive : u.hub.retired = false) :
      Executes env s ((u.clearGrid.accepted .executed 0).started u.nextRequestId)

/-- The reply that ends a state. -/
def ControllerState.awaits : ControllerState → Option EventKind
  | .opening => some .opened
  | .executing => some .executed
  | .closing => some .sessionClosed
  | _ => none

/-- The states that a reply leaves for good. -/
def ControllerState.rests : ControllerState → Bool
  | .ready | .closed | .failed => true
  | _ => false

theorem ControllerState.rests_waits (state : ControllerState) (rests : state.rests = true) :
    state.awaits = none ∧ state ≠ .fetching := by
  cases state <;> simp [ControllerState.rests,awaits] at rests ⊢

def Pending.Of (result : Nat) (p : Pending) : Prop := p.kind = .fetched ∧ p.result = result

def System.landed (rows : Nat) (s : System) : System :=
  { s with
    fetchesInFlight := s.fetchesInFlight - 1
    model := s.model.applyBatch (some ⟨s.resultId,rows⟩) rows
    rowsFetched := s.rowsFetched + rows
    exhausted := s.exhausted || rows == 0 }

/-- What the controller does with the reply to a request once that is off the books. -/
inductive Reacts (env : Env) (p : Pending) (n : Nat) (s : System) : HubEvent → System → Prop where
  | late (gone : s.terminated = true) (same : Alike s t) : Reacts env p n s event t
  | lateStatement (gone : s.terminated = true) (kind : p.kind = .executed) :
      Reacts env p n s event (s.note p.request .failed)
  | moved (lives : s.terminated = false) (kind : p.kind = .opened ∨ p.kind = .sessionClosed)
      (rests : state.rests = true) (same : Alike { s with state := state } t) : Reacts env p n s event t
  | opened (lives : s.terminated = false) (kind : p.kind = .opened) (same : Alike { s with state := .ready } u)
      (number : u.nextRequestId = s.nextRequestId) (executes : Executes env u t) : Reacts env p n s event t
  | answered (lives : s.terminated = false) (kind : p.kind = .executed) (unopened : event.opens = 0)
      (rests : state.rests = true) (same : Alike { s.note p.request answer with state := state } t) : Reacts env p n s event t
  | shown (lives : s.terminated = false) (kind : p.kind = .executed) (known : n < s.hub.nextResultId) :
      Reacts env p n s (.executed p.request none (some n) rowsAffected)
        ((({ s with rowsAffected := rowsAffected }.note p.request (.opened n)).showResult env n).submitFetches env)
  | released (lives : s.terminated = false) (kind : p.kind = .resultClosed) : Reacts env p n s event s
  | stale (lives : s.terminated = false) (kind : p.kind = .fetched) (other : s.hasResult = false ∨ p.result ≠ s.resultId) :
      Reacts env p n s event ({ s with fetchesInFlight := s.fetchesInFlight - 1 }.submitFetches env)
  | unfetched (lives : s.terminated = false) (kind : p.kind = .fetched) :
      Reacts env p n s event { s with fetchesInFlight := s.fetchesInFlight - 1, state := .failed }
  | complete (lives : s.terminated = false) (own : p.Of s.resultId) (shown : s.hasResult = true)
      (last : (s.landed rows).exhausted = true ∧ (s.landed rows).fetchesInFlight = 0) :
      Reacts env p n s (.fetched p.request none (some p.result) (some ⟨p.result,rows⟩) rows)
        { s.landed rows with state := .resultComplete }
  | landed (lives : s.terminated = false) (own : p.Of s.resultId) (shown : s.hasResult = true)
      (more : (s.landed rows).exhausted = true → (s.landed rows).fetchesInFlight ≠ 0) :
      Reacts env p n s (.fetched p.request none (some p.result) (some ⟨p.result,rows⟩) rows)
        ((s.landed rows).submitFetches env)

def System.took (pending : List Pending) (p : Pending) (event : HubEvent) (error : Option DbError) (s : System) : System :=
  { s with hub := { s.hub with
    pending := pending, nextResultId := s.hub.nextResultId + event.opens } }.settle p.request error

def System.closed (s : System) : System :=
  { s.accepted .resultClosed s.resultId with
    resultId := 0
    hasResult := false
    exhausted := true
    model := s.model.reset
    newest := none }

inductive Does (env : Env) (s : System) : Move → System → Prop where
  | nothing (same : Alike s t) : Does env s (.call call) t
  | fails (same : Alike { s with state := .failed } t) : Does env s (.call call) t
  | submits (alive : s.hub.retired = false) (entered : state.awaits = some kind)
      (other : kind = .opened ∨ kind = .sessionClosed) (same : Alike { s.accepted kind 0 with state := state } t) :
      Does env s (.call call) t
  | executes (executes : Executes env s t) : Does env s (.call .execute) t
  | closes (alive : s.hub.retired = false) (shown : s.resultId ≠ 0) : Does env s (.call .closeResult) s.closed
  | tunes (fetches : Positive) (rows : Nat) :
      Does env s (.call call) { s with maxFetchesInFlight := fetches, model := { s.model with maxRows := rows } }
  | switches (on : Bool) : Does env s (.call (.setAutoFetch on)) { s with autoFetch := on }
  | fetches (asked : Nat) : Does env s (.call .fetchMoreRows) ({ s with pendingFetchRequests := asked }.submitFetches env)
  | ends : Does env s .ends { s with hub := { s.hub with ended := true } }
  | hears (unanswered : event.answered = none) (same : Alike s t) : Does env s (.event event) t
  | gone (unanswered : event.answered = none) (ended : s.hub.ended = true) (final : state = .failed ∨ state = .closed)
      (same : Alike { s with hub := { s.hub with retired := true }, terminated := true, state := state } t) :
      Does env s (.event event) t
  | reacts (error : Option DbError) (queue : s.hub.pending = before ++ p :: rest) (answers : Answers s.hub.nextResultId p event)
      (fifo : s.hub.ended = false → before = []) (alive : event.succeeds = true → s.hub.ended = false)
      (reacts : Reacts env p s.hub.nextResultId (s.took (before ++ rest) p event error) event t) : Does env s (.event event) t

theorem Alike.refl (s : System) : Alike s s := ⟨le_rfl,rfl⟩

theorem execute_executes (env : Env) (s : System) : Executes env s (s.execute env).2 := by
  by_cases opened : s.sessionId = 0
  · rw [System.execute,if_pos opened]
    exact .unopened
  have replaces : ∃ u, Replaces env s u ∧ s.cleared env = u.clearGrid := by
    refine ⟨_,?_,rfl⟩
    unfold System.closeReplaced
    split
    · obtain ⟨next,refusal,left⟩ | ⟨alive,acceptance⟩ := submitCloseResult_cases env s.resultId { s with error := none }
      · rw [refusal]
        refine .kept (fun shown accepts => ?_) ?_
        · have closed : (System.submitCloseResult env s.resultId { s with error := none }).1 = true :=
            submitCloseResult_accepts opened shown accepts
          simp [refusal] at closed
        · obtain rfl | ⟨error,rfl⟩ := left
          · exact ⟨le_rfl,rfl⟩
          · exact ⟨le_succ _,rfl⟩
      · rw [acceptance]
        exact .closed alive ⟨le_rfl,rfl⟩
    · exact .kept (fun shown => absurd shown ‹_›) ⟨le_rfl,rfl⟩
  obtain ⟨u,replaces,cleared⟩ := replaces
  obtain unopened | ⟨error,refusal⟩ | ⟨alive,acceptance⟩ := execute_cases env s
  · rw [unopened]
    exact .unopened
  · rw [refusal,cleared]
    exact .refused replaces ⟨le_succ _,rfl⟩
  · rw [acceptance,cleared]
    exact .started replaces (show u.clearGrid.hub.retired = false from cleared ▸ alive)

theorem Call.does (env : Env) (s : System) (call : Call) : Does env s (.call call) (call.perform env s) := by
  cases call with
  | openSession =>
    simp only [perform,System.openSession]
    split
    · exact .nothing (.refl s)
    obtain ⟨error,refusal⟩ | ⟨alive,acceptance⟩ := System.submit_cases env .opened 0 { s with error := none }
    · rw [refusal]
      exact .fails ⟨le_succ _,rfl⟩
    · rw [acceptance]
      exact .submits alive (show ControllerState.opening.awaits = some .opened from rfl) (.inl rfl) ⟨le_rfl,rfl⟩
  | execute => exact .executes (execute_executes env s)
  | closeResult =>
    simp only [perform,System.closeResult]
    split
    · exact .nothing (.refl s)
    obtain ⟨next,refusal,rfl | ⟨error,rfl⟩⟩ | ⟨alive,acceptance⟩ := submitCloseResult_cases env s.resultId s
    · rw [refusal]
      exact .nothing (.refl _)
    · rw [refusal]
      exact .nothing ⟨le_succ _,rfl⟩
    · rw [acceptance]
      exact .closes alive ‹_›
  | closeSession =>
    simp only [perform,System.closeSession]
    split
    · exact .nothing (.refl s)
    obtain ⟨error,refusal⟩ | ⟨alive,acceptance⟩ := System.submit_cases env .sessionClosed 0 s
    · rw [refusal]
      exact .nothing ⟨le_succ _,rfl⟩
    · rw [acceptance]
      exact .submits alive (show ControllerState.closing.awaits = some .sessionClosed from rfl) (.inr rfl) (.refl _)
  | fetchMoreRows =>
    simp only [perform,System.fetchMoreRows]
    split
    · exact .nothing (.refl s)
    split <;> exact .fetches _
  | setFetchRows | setRunOnOpen => exact .nothing ⟨le_rfl,rfl⟩
  | setMaxFetchesInFlight fetches => exact .tunes (.clamp fetches) s.model.maxRows
  | setMaxRows rows => exact .tunes s.maxFetchesInFlight rows.toNat
  | setAutoFetch on => exact .switches on

theorem act_reacts (env : Env) (lives : s.terminated = false) (answers : Answers n p event)
    (fresh : s.hub.nextResultId = n + event.opens) : Reacts env p n s event (s.act env event) := by
  cases answers with
  | opened request error cancelKind =>
    simp only [System.act,System.onOpened]
    split
    · exact .moved lives (.inl rfl) (show ControllerState.failed.rests = true from rfl) ⟨le_rfl,rfl⟩
    rename_i opened
    obtain rfl : error = none := by simpa using opened
    split
    · refine .opened lives rfl ?_ ?_ (execute_executes env _)
      · exact ⟨le_rfl,rfl⟩
      · rfl
    · exact .moved lives (.inl rfl) (show ControllerState.ready.rests = true from rfl) ⟨le_rfl,rfl⟩
  | failed request error rowsAffected => exact .answered lives rfl rfl (show ControllerState.failed.rests = true from rfl) ⟨le_rfl,rfl⟩
  | executed request rowsAffected => exact .answered lives rfl rfl (show ControllerState.ready.rests = true from rfl) ⟨le_rfl,rfl⟩
  | result request rowsAffected => exact .shown lives rfl (fresh.symm ▸ lt_succ_self n)
  | unfetched request error =>
    simp only [System.act,System.onFetched]
    split
    · rename_i stale
      exact .stale lives rfl (by simpa using stale)
    · exact .unfetched lives rfl
  | fetched request rows =>
    simp only [System.act,System.onFetched]
    split
    · rename_i stale
      exact .stale lives rfl (by simpa using stale)
    rename_i shown
    simp only [Bool.or_eq_true,Bool.not_eq_true',bne_iff_ne,Option.getD_some,not_or,Bool.not_eq_false,not_not] at shown
    obtain ⟨has,rfl⟩ := shown
    rw [if_neg (by simp)]
    split
    · rename_i last
      exact .complete lives ⟨rfl,rfl⟩ has (by simpa [System.landed] using last)
    · rename_i more
      exact .landed lives ⟨rfl,rfl⟩ has (by simpa [System.landed] using more)
  | resultClosed request error => exact .released lives rfl
  | sessionClosed request error closeOutcome stillOpen =>
    have rests : (if stillOpen then ControllerState.ready else .closed).rests = true := by cases stillOpen <;> rfl
    exact .moved lives (.inr rfl) rests ⟨le_rfl,rfl⟩

theorem Step.does (step : Step env s move t) : Does env s move t := by
  cases step with
  | call call => exact call.does env s
  | ends => exact .ends
  | event delivers =>
    obtain replied | ⟨rfl,rfl⟩ | ⟨possiblyActive,rfl,rfl⟩ | ⟨lost,transactionPossiblyLost,error,rfl,ended,rfl⟩ := delivers.cases
    · obtain ⟨queue,answers,fifo,alive⟩ := replied
      obtain ⟨error,answered⟩ := answers.answered
      refine .reacts error queue answers fifo alive ?_
      unfold System.handleEvent
      rw [answered]
      dsimp only
      split
      · cases answers with
        | failed | executed | result => exact .lateStatement ‹_› rfl
        | opened | unfetched | fetched | resultClosed | sessionClosed => exact .late ‹_› ⟨le_rfl,rfl⟩
      · exact act_reacts env (Bool.eq_false_iff.mpr ‹_›) answers rfl
    · exact .hears rfl (.refl s)
    · exact .hears rfl ⟨le_rfl,rfl⟩
    · have final : (if lost then ControllerState.failed else if s.state = .failed then .failed else .closed) = .failed ∨
          (if lost then ControllerState.failed else if s.state = .failed then .failed else .closed) = .closed := by
        split_ifs <;> simp
      exact .gone rfl ended final ⟨le_rfl,rfl⟩

end Reldex.Ui
