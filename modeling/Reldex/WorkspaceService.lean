import Reldex.Guarantees
import Reldex.ThreadProgress
import Reldex.HubEvents

/-! The workspace of the C interface: calls that put commands into a channel, and the service
thread that opens the store, takes them out one by one and answers each with an event. -/
namespace Reldex.Ffi.Workspace
open List Bool

section

inductive Operation where
  | resolveSetting | setSetting | clearSetting | createProfile | updateProfile | deleteProfile | getProfile
  | listProfiles | buildConnectParams | credentialGet | credentialPut | credentialDelete | resolvePassword
  | recordHistory | listHistory | clearHistory | saveWorksheet | loadWorksheets | deleteWorksheet | saveLayout
  | loadLayout
  deriving DecidableEq, Repr

inductive ReldexWorkspaceReplyKind where
  | opened | settingResolved | settingSet | settingCleared | profileSaved | profileDeleted | profileFetched
  | profilesListed | connectParamsBuilt | credentialGot | credentialPut | credentialDeleted | passwordResolved
  | historyRecorded | historyListed | historyCleared | worksheetSaved | worksheetsLoaded | worksheetDeleted
  | layoutSaved | layoutLoaded
  deriving DecidableEq, Repr

variable {σ α π : Type}

/-- `call` is not part of it: it tells apart the calls that sent commands with one request id. -/
structure WorkspaceCommand (α : Type) where
  operation : Operation
  request : ReldexRequestId
  content : α
  call : Nat

/-- The payload is `none` where there is nothing to hand over. The event of the open answers
no call. -/
structure QueuedWorkspaceReply (π : Type) where
  kind : ReldexWorkspaceReplyKind
  request : ReldexRequestId
  payload : Except DbError (Option π)
  call : Option Nat

def commandReplyKind (command : WorkspaceCommand α) : ReldexWorkspaceReplyKind :=
  match command.operation with
  | .resolveSetting => .settingResolved
  | .setSetting => .settingSet
  | .clearSetting => .settingCleared
  | .createProfile | .updateProfile => .profileSaved
  | .deleteProfile => .profileDeleted
  | .getProfile => .profileFetched
  | .listProfiles => .profilesListed
  | .buildConnectParams => .connectParamsBuilt
  | .credentialGet => .credentialGot
  | .credentialPut => .credentialPut
  | .credentialDelete => .credentialDeleted
  | .resolvePassword => .passwordResolved
  | .recordHistory => .historyRecorded
  | .listHistory => .historyListed
  | .clearHistory => .historyCleared
  | .saveWorksheet => .worksheetSaved
  | .loadWorksheets => .worksheetsLoaded
  | .deleteWorksheet => .worksheetDeleted
  | .saveLayout => .layoutSaved
  | .loadLayout => .layoutLoaded

/-- The store and the credentials behind the service: how they open, and what a command does
to them. A command may panic, with a text or without. -/
structure Backend (σ α π : Type) where
  opened : Except DbError σ
  executes : σ → Operation → α → Except (Option String) (Except DbError (Option π) × σ)

/-- Something at the back goes wrong: it does not open, or a command panics. -/
def Backend.Fails (backend : Backend σ α π) : Prop :=
  (∃ error, backend.opened = .error error) ∨
    ∃ store operation content detail, backend.executes store operation content = .error detail

/-- Every arm of `run_command` answers with the command's request, and the kind it names is the
one of the panic path. -/
def runCommand (backend : Backend σ α π) (store : σ) (command : WorkspaceCommand α) :
    Except (Option String) (QueuedWorkspaceReply π × σ) :=
  (backend.executes store command.operation command.content).map fun (payload,store) =>
    (⟨commandReplyKind command,command.request,payload,some command.call⟩,store)

def workspacePanicMessage (payload : Option String) : String :=
  "reldex-ffi: the workspace's service thread panicked (" ++ payload.getD "no message" ++
    "); the workspace is no longer usable"

def failure (message : String) (command : WorkspaceCommand α) : QueuedWorkspaceReply π :=
  ⟨commandReplyKind command,command.request,.error (.new .driverInternal message),some command.call⟩

/-- `commands` and `clones` are the senders of the channel, held by the workspace and by calls
on their way. `received` and `delivered` are a record of what was taken out of the channel and
of the event queue. -/
structure ReldexWorkspace (α π : Type) where
  commands : Bool
  clones : List Nat
  receiver : Bool
  waiting : List (WorkspaceCommand α)
  received : List (WorkspaceCommand α)
  replies : List (QueuedWorkspaceReply π)
  delivered : List (QueuedWorkspaceReply π)
  failed : Bool
  destroyed : Bool

def ReldexWorkspace.new : ReldexWorkspace α π := ⟨true,[],true,[],[],[],[],false,false⟩

/-- What a call returned and the error it left for `reldex_last_error_take`. -/
structure Answer where
  status : ReldexStatus
  lastError : Option DbError
  deriving DecidableEq, Repr

def Answer.ok : Answer := ⟨.ok,none⟩

def setLastArgumentError (message : String) : Answer :=
  ⟨.invalidArgument,some (.internal ("reldex-ffi: " ++ message))⟩

def setLastWorkspaceStateError (message : String) : Answer :=
  ⟨.invalidState,some (.internal ("reldex-ffi: " ++ message))⟩

/-- A call that has returned, or how the service thread goes on. -/
inductive Turn (σ α π : Type) where
  | submitted (command : WorkspaceCommand α) (answer : Answer)
  | drained (reply : Option (QueuedWorkspaceReply π))
  | closed
  | serving (store : σ)
  | draining (message : String)
  | ended

abbrev Task (α π : Type) := Prog (ReldexWorkspace α π)

def isFailed : Task α π Bool := .gets ReldexWorkspace.failed

/-- The lock is held for the clone only. -/
def cloneSender (call : Nat) : Task α π Bool :=
  .modifyGet fun w => if w.commands then (true,{ w with clones := call :: w.clones }) else (false,w)

/-- A channel without a receiver refuses. The clone is dropped with the call. -/
def send (command : WorkspaceCommand α) : Task α π Answer :=
  .modifyGet fun w =>
    if w.receiver then
      (.ok,{ w with waiting := w.waiting ++ [command], clones := w.clones.erase command.call })
    else
      (setLastWorkspaceStateError "reldex_workspace: the workspace has been closed",
        { w with clones := w.clones.erase command.call })

/-- `handle`: the pointer is neither null nor unaligned. -/
def submit (handle : Bool) (command : WorkspaceCommand α) : Task α π (Turn σ α π) :=
  if handle then do
    if ← isFailed then
      pure (.submitted command
        (setLastWorkspaceStateError "reldex_workspace: the service thread panicked and is no longer running"))
    else if ← cloneSender command.call then
      return .submitted command (← send command)
    else
      pure (.submitted command (setLastWorkspaceStateError "reldex_workspace: the workspace has been closed"))
  else pure (.submitted command (setLastArgumentError "reldex_workspace: `workspace` is null or unaligned"))

def ReldexWorkspace.nextReply (w : ReldexWorkspace α π) : Option (QueuedWorkspaceReply π) × ReldexWorkspace α π :=
  match w.replies with
  | [] => (none,w)
  | reply :: rest => (some reply,{ w with replies := rest, delivered := w.delivered ++ [reply] })

def reldexWorkspaceNextReply : Task α π (Turn σ α π) := do
  return .drained (← .modifyGet ReldexWorkspace.nextReply)

def reldexWorkspaceClose : Task α π (Turn σ α π) := do
  .modify fun w => { w with destroyed := true }
  .modify fun w => { w with commands := false }
  pure .closed

def pushReply (reply : QueuedWorkspaceReply π) : Task α π Unit :=
  .modify fun w => { w with replies := w.replies ++ [reply] }

def markFailed : Task α π Unit := .modify fun w => { w with failed := true }

def ReldexWorkspace.take (w : ReldexWorkspace α π) : Option (WorkspaceCommand α) × ReldexWorkspace α π :=
  match w.waiting with
  | [] => (none,w)
  | command :: rest => (some command,{ w with waiting := rest, received := w.received ++ [command] })

/-- It waits for a command, or until the last sender is gone. -/
def recv : Task α π (Option (WorkspaceCommand α)) :=
  .await (fun w => !w.waiting.isEmpty || (!w.commands && w.clones.isEmpty)) ReldexWorkspace.take

def tryRecv : Task α π (Option (WorkspaceCommand α)) := .modifyGet ReldexWorkspace.take

/-- The thread returns, and with it goes the receiver: what waits in the channel is never taken. -/
def leave : Task α π (Turn σ α π) := do
  .modify fun w => { w with receiver := false }
  pure .ended

variable (backend : Backend σ α π)

/-- Up to the loop. -/
def serviceMain (openRequest : ReldexRequestId) : Task α π (Turn σ α π) :=
  match backend.opened with
  | .error error => do
    pushReply ⟨.opened,openRequest,.error error,none⟩
    leave
  | .ok store => do
    pushReply ⟨.opened,openRequest,.ok none,none⟩
    pure (.serving store)

/-- One turn of the loop over `recv`. -/
def serve (store : σ) : Task α π (Turn σ α π) := do
  match ← recv with
  | none => leave
  | some command =>
    match runCommand backend store command with
    | .ok (reply,store) =>
      pushReply reply
      pure (.serving store)
    | .error payload =>
      markFailed
      pushReply (failure (workspacePanicMessage payload) command)
      pure (.draining (workspacePanicMessage payload))

/-- One turn of the loop over `try_recv`. -/
def drain (message : String) : Task α π (Turn σ α π) := do
  match ← tryRecv with
  | none => leave
  | some queued =>
    pushReply (failure message queued)
    pure (.draining message)

def Turn.resume : Turn σ α π → Option (Task α π (Turn σ α π))
  | .serving store => some (serve backend store)
  | .draining message => some (drain message)
  | .submitted _ _ | .drained _ | .closed | .ended => none

def service : Nat := 0

inductive Starts : Nat → Task α π (Turn σ α π) → Prop where
  | submit (other : name ≠ service) (handle : Bool) (command : WorkspaceCommand α) (call : command.call = name) :
      Starts name (submit handle command)
  | nextReply (other : name ≠ service) : Starts name reldexWorkspaceNextReply
  | close (other : name ≠ service) : Starts name reldexWorkspaceClose

def opening (openRequest : ReldexRequestId) : Pool (ReldexWorkspace α π) (Turn σ α π) :=
  ⟨.new,Function.update (fun _ => none) service (some (serviceMain backend openRequest))⟩

abbrev Interleaved : Pool (ReldexWorkspace α π) (Turn σ α π) → Pool (ReldexWorkspace α π) (Turn σ α π) → Prop :=
  Relation.ReflTransGen (Pool.Step (Turn.resume backend) Starts)

end

section
variable {α π : Type}

def ReldexWorkspace.events (w : ReldexWorkspace α π) : List (QueuedWorkspaceReply π) := w.delivered ++ w.replies

def ReldexWorkspace.answers (w : ReldexWorkspace α π) : List (QueuedWorkspaceReply π) :=
  w.events.filter fun reply => reply.call.isSome

/-- The commands that a call put into the channel, and the events that answer it. -/
def ReldexWorkspace.sentBy (call : Nat) (w : ReldexWorkspace α π) : List (WorkspaceCommand α) :=
  (w.received ++ w.waiting).filter fun command => command.call = call

def ReldexWorkspace.answersTo (call : Nat) (w : ReldexWorkspace α π) : List (QueuedWorkspaceReply π) :=
  w.events.filter fun reply => reply.call = some call

/-- It carries the request of the command and is of the kind that the command is answered with. -/
structure Answers (command : WorkspaceCommand α) (reply : QueuedWorkspaceReply π) : Prop where
  call : reply.call = some command.call
  request : reply.request = command.request
  kind : reply.kind = commandReplyKind command

def QueuedWorkspaceReply.Failure (reply : QueuedWorkspaceReply π) : Prop :=
  ∃ message, reply.payload = .error (.new .driverInternal message)

theorem failure_answers (message : String) (command : WorkspaceCommand α) :
    Answers command (failure message command : QueuedWorkspaceReply π) := ⟨rfl,rfl,rfl⟩

theorem failure_fails (message : String) (command : WorkspaceCommand α) :
    (failure message command : QueuedWorkspaceReply π).Failure := ⟨message,rfl⟩

theorem runCommand_answers {next : σ}
    (ran : runCommand backend store command = .ok (reply,next)) : Answers command reply := by
  unfold runCommand at ran
  cases outcome : backend.executes store command.operation command.content with
  | error payload => simp [outcome,Except.map] at ran
  | ok result =>
    simp only [outcome,Except.map,Except.ok.injEq,Prod.mk.injEq] at ran
    obtain ⟨rfl,_⟩ := ran
    exact ⟨rfl,rfl,rfl⟩

theorem runCommand_panics (ran : runCommand backend store command = .error payload) : backend.Fails := by
  unfold runCommand at ran
  cases outcome : backend.executes store command.operation command.content with
  | error payload => exact .inr ⟨_,_,_,_,outcome⟩
  | ok result => simp [outcome,Except.map] at ran

theorem answers_filter (answered : Forall₂ Answers commands replies) (call : Nat) :
    Forall₂ Answers (commands.filter fun command => command.call = call)
      (replies.filter fun reply => reply.call = some call) := by
  induction answered with
  | nil => exact .nil
  | @cons command reply _ _ first rest ih =>
    by_cases same : command.call = call
    · rw [filter_cons_of_pos (by simpa using same),filter_cons_of_pos (by simpa [first.call] using same)]
      exact .cons first ih
    · rw [filter_cons_of_neg (by simpa using same),filter_cons_of_neg (by simpa [first.call] using same)]
      exact ih

theorem answersTo_eq (call : Nat) (w : ReldexWorkspace α π) :
    w.answersTo call = w.answers.filter fun reply => reply.call = some call := by
  rw [ReldexWorkspace.answersTo,ReldexWorkspace.answers,filter_filter]
  refine filter_congr fun reply _ => ?_
  cases reply.call <;> simp

end

section
variable {σ α π : Type} (backend : Backend σ α π)

/-- What a call does: it may send the one command that is its own. -/
structure CallStep (name : Nat) (s t : ReldexWorkspace α π) : Prop where
  received : t.received = s.received
  events : t.events = s.events
  receiver : t.receiver = s.receiver
  failed : t.failed = s.failed
  sent : t.waiting = s.waiting ∨
    ∃ command : WorkspaceCommand α, command.call = name ∧ s.receiver = true ∧ t.waiting = s.waiting ++ [command]
  closing : (s.commands = false → s.destroyed = true) → t.commands = false → t.destroyed = true
  destroyed : s.destroyed = true → t.destroyed = true

/-- The events so far answer the commands taken out so far, in their order; some of these may
still be in hand. -/
def Ordered (w : ReldexWorkspace α π) : Prop :=
  ∃ done hand, w.received = done ++ hand ∧ Forall₂ Answers done w.answers

/-- What the service does: from its panic on every event is a failure, and it does not leave
for nothing. -/
structure ServiceStep (s t : ReldexWorkspace α π) : Prop where
  sent : t.received ++ t.waiting = s.received ++ s.waiting
  commands : t.commands = s.commands
  destroyed : t.destroyed = s.destroyed
  events : ∃ more, t.events = s.events ++ more ∧ (s.failed = true → ∀ reply ∈ more, reply.Failure)
  failed : s.failed = true → t.failed = true
  left : t.receiver = false → s.receiver = false ∨ t.destroyed = true ∨ backend.Fails
  gone : s.receiver = false → t.receiver = false
  ordered : Ordered t

def Guarantee (name : Nat) (s t : ReldexWorkspace α π) : Prop :=
  if name = service then ServiceStep backend s t else CallStep name s t

structure Invariant (w : ReldexWorkspace α π) : Prop where
  ordered : Ordered w
  closing : w.commands = false → w.destroyed = true
  left : w.receiver = false → w.destroyed = true ∨ backend.Fails
  silent : w.sentBy service = []

variable {backend}

theorem Guarantee.callStep (other : name ≠ service) (guaranteed : Guarantee backend name s t) : CallStep name s t := by
  simpa [Guarantee,other] using guaranteed

theorem Guarantee.of_call (other : name ≠ service) (step : CallStep name s t) : Guarantee backend name s t := by
  simpa [Guarantee,other] using step

theorem Guarantee.serviceStep (guaranteed : Guarantee backend service s t) : ServiceStep backend s t := by
  simpa [Guarantee] using guaranteed

theorem Guarantee.of_service (step : ServiceStep backend s t) : Guarantee backend service s t := by
  simpa [Guarantee] using step

theorem CallStep.answers (step : CallStep name s t) : t.answers = s.answers := by
  rw [ReldexWorkspace.answers,step.events,ReldexWorkspace.answers]

theorem Guarantee.sentBy (guaranteed : Guarantee backend name s t) (different : name ≠ call) :
    t.sentBy call = s.sentBy call := by
  by_cases same : name = service
  · subst same
    rw [ReldexWorkspace.sentBy,guaranteed.serviceStep.sent,ReldexWorkspace.sentBy]
  · have step := guaranteed.callStep same
    rw [ReldexWorkspace.sentBy,step.received,ReldexWorkspace.sentBy]
    rcases step.sent with sent | ⟨command,own,_,sent⟩
    · rw [sent]
    · simp [sent,own,different]

theorem Invariant.kept (invariant : Invariant backend s)
    (guaranteed : Guarantee backend name s t) : Invariant backend t := by
  by_cases same : name = service
  · subst same
    have step := guaranteed.serviceStep
    refine ⟨step.ordered,?_,fun gone => ?_,?_⟩
    · rw [step.commands,step.destroyed]
      exact invariant.closing
    · rcases step.left gone with before | known
      · rw [step.destroyed]
        exact invariant.left before
      · exact known
    · rw [ReldexWorkspace.sentBy,step.sent]
      exact invariant.silent
  · have step := guaranteed.callStep same
    refine ⟨?_,step.closing invariant.closing,fun gone => ?_,(guaranteed.sentBy same).trans invariant.silent⟩
    · obtain ⟨done,hand,received,answered⟩ := invariant.ordered
      exact ⟨done,hand,step.received.trans received,step.answers ▸ answered⟩
    · exact (invariant.left (step.receiver ▸ gone)).imp_left step.destroyed

theorem sentBy_stable (call : Nat) (sent : List (WorkspaceCommand α)) :
    Prog.Stable (Guarantee backend) call fun w : ReldexWorkspace α π => w.sentBy call = sent :=
  fun _ _ _ different guaranteed holds => (guaranteed.sentBy different).trans holds

end

variable {σ α π : Type} {backend : Backend σ α π} {openRequest : ReldexRequestId}

section
variable {name : Nat}

def Returned (name : Nat) (turn : Turn σ α π) (w : ReldexWorkspace α π) : Prop :=
  match turn with
  | .submitted command answer =>
    command.call = name ∧ w.sentBy name = if answer.status = .ok then [command] else []
  | .drained _ | .closed => w.sentBy name = []
  | .serving _ | .draining _ | .ended => False

/-- A call never waits. -/
abbrev CallSpec (backend : Backend σ α π) (name : Nat) (pre : ReldexWorkspace α π → Prop) {β : Type}
    (p : Task α π β) (post : β → ReldexWorkspace α π → Prop) : Prop :=
  Prog.Spec (Guarantee backend) name (fun _ => False) pre p post

theorem submit_refused (command : WorkspaceCommand α) (answer : Answer) (own : command.call = name)
    (refused : answer.status ≠ .ok) :
    CallSpec backend name (fun w => w.sentBy name = []) (pure (.submitted command answer) : Task α π (Turn σ α π))
      (Returned name) :=
  .pure (sentBy_stable name []) fun w unsent => ⟨own,by simpa [refused] using unsent⟩

section
variable (other : name ≠ service)
include other

theorem isFailed_call : CallSpec backend name (fun w => w.sentBy name = []) isFailed fun _ w => w.sentBy name = [] :=
  .gets (sentBy_stable name []) (fun _ => sentBy_stable name []) fun _ unsent =>
    ⟨.of_call other ⟨rfl,rfl,rfl,rfl,.inl rfl,id,id⟩,unsent⟩

theorem cloneSender_call :
    CallSpec backend name (fun w => w.sentBy name = []) (cloneSender call) fun _ w => w.sentBy name = [] := by
  refine .modifyGet (sentBy_stable name []) (fun _ => sentBy_stable name []) fun w unsent => ?_
  split
  · exact ⟨.of_call other ⟨rfl,rfl,rfl,rfl,.inl rfl,id,id⟩,unsent⟩
  · exact ⟨.of_call other ⟨rfl,rfl,rfl,rfl,.inl rfl,id,id⟩,unsent⟩

theorem send_call (command : WorkspaceCommand α) (own : command.call = name) :
    CallSpec backend name (fun w => w.sentBy name = []) (send command) fun answer w =>
      w.sentBy name = if answer.status = .ok then [command] else [] := by
  refine .modifyGet (sentBy_stable name []) (fun _ => sentBy_stable name _) fun w unsent => ?_
  by_cases alive : w.receiver = true
  · rw [if_pos alive]
    refine ⟨.of_call other ⟨rfl,rfl,rfl,rfl,.inr ⟨command,own,alive,rfl⟩,id,id⟩,?_⟩
    have added : { w with waiting := w.waiting ++ [command], clones := w.clones.erase command.call }.sentBy name =
        w.sentBy name ++ [command] := by
      simp [ReldexWorkspace.sentBy,own]
    simp [Answer.ok,added,unsent]
  · rw [if_neg alive]
    exact ⟨.of_call other ⟨rfl,rfl,rfl,rfl,.inl rfl,id,id⟩,unsent⟩

theorem submit_call (handle : Bool) (command : WorkspaceCommand α) (own : command.call = name) :
    CallSpec backend name (fun w => w.sentBy name = []) (submit handle command : Task α π (Turn σ α π))
      (Returned name) := by
  unfold submit
  split
  · refine .bind (isFailed_call other) fun failed => ?_
    split
    · exact submit_refused command _ own (by decide)
    · refine .bind (cloneSender_call other) fun cloned => ?_
      split
      · refine .bind (send_call other command own) fun answer => ?_
        exact .pure (sentBy_stable name _) fun w sent => ⟨own,sent⟩
      · exact submit_refused command _ own (by decide)
  · exact submit_refused command _ own (by decide)

theorem nextReply_call :
    CallSpec backend name (fun w => w.sentBy name = []) (reldexWorkspaceNextReply : Task α π (Turn σ α π))
      (Returned name) := by
  refine .bind (.modifyGet (sentBy_stable name []) (fun _ => sentBy_stable name []) fun w unsent => ?_)
    fun reply => .pure (sentBy_stable name []) fun w unsent => unsent
  unfold ReldexWorkspace.nextReply
  split
  · exact ⟨.of_call other ⟨rfl,rfl,rfl,rfl,.inl rfl,id,id⟩,unsent⟩
  · rename_i reply rest replies
    refine ⟨.of_call other ⟨rfl,?_,rfl,rfl,.inl rfl,id,id⟩,unsent⟩
    simp [ReldexWorkspace.events,replies]

end

theorem destroyed_stable (backend : Backend σ α π) (name : Nat) :
    Prog.Stable (Guarantee backend) name fun w : ReldexWorkspace α π => w.destroyed = true := by
  intro mover s t _ guaranteed destroyed
  by_cases same : mover = service
  · subst same
    exact guaranteed.serviceStep.destroyed.trans destroyed
  · exact (guaranteed.callStep same).destroyed destroyed

theorem close_call (other : name ≠ service) :
    CallSpec backend name (fun w => w.sentBy name = []) (reldexWorkspaceClose : Task α π (Turn σ α π))
      (Returned name) := by
  have kept : Prog.Stable (Guarantee backend) name
      fun w : ReldexWorkspace α π => w.sentBy name = [] ∧ w.destroyed = true :=
    (sentBy_stable name []).and (destroyed_stable backend name)
  refine .bind (.modify (sentBy_stable name []) kept fun w unsent => ?_) fun _ =>
    .bind (.modify kept (sentBy_stable name []) fun w known => ?_) fun _ =>
      .pure (sentBy_stable name []) fun w unsent => unsent
  · exact ⟨.of_call other ⟨rfl,rfl,rfl,rfl,.inl rfl,fun _ _ => rfl,fun _ => rfl⟩,unsent,rfl⟩
  · exact ⟨.of_call other ⟨rfl,rfl,rfl,rfl,.inl rfl,fun _ _ => known.2,id⟩,known.1⟩

end

/-- The service is at work: what it holds is all that is taken out and not answered. -/
structure Busy (hand : List (WorkspaceCommand α)) (w : ReldexWorkspace α π) : Prop where
  alive : w.receiver = true
  closing : w.commands = false → w.destroyed = true
  answered : ∃ done, w.received = done ++ hand ∧ Forall₂ Answers done w.answers

def Calm (hand : List (WorkspaceCommand α)) (w : ReldexWorkspace α π) : Prop := Busy hand w ∧ w.failed = false

theorem Busy.after (busy : Busy hand s) (step : CallStep name s t) : Busy hand t := by
  obtain ⟨alive,closing,done,received,answered⟩ := busy
  exact ⟨step.receiver.trans alive,step.closing closing,done,step.received.trans received,step.answers ▸ answered⟩

theorem busy_stable (backend : Backend σ α π) (hand : List (WorkspaceCommand α)) :
    Prog.Stable (Guarantee backend) service fun w : ReldexWorkspace α π => Busy hand w :=
  fun _ _ _ different guaranteed busy => busy.after (guaranteed.callStep different)

theorem calm_stable (backend : Backend σ α π) (hand : List (WorkspaceCommand α)) :
    Prog.Stable (Guarantee backend) service fun w : ReldexWorkspace α π => Calm hand w :=
  fun _ _ _ different guaranteed calm =>
    ⟨calm.1.after (guaranteed.callStep different),(guaranteed.callStep different).failed.trans calm.2⟩

def Stands (backend : Backend σ α π) (turn : Turn σ α π) (w : ReldexWorkspace α π) : Prop :=
  match turn with
  | .serving _ => Calm [] w
  | .draining _ => backend.Fails ∧ Busy [] w
  | .ended => w.receiver = false ∧ Forall₂ Answers w.received w.answers
  | .submitted _ _ | .drained _ | .closed => False

/-- It waits with nothing in the channel and nothing owed. -/
abbrev ServiceSpec (backend : Backend σ α π) (pre : ReldexWorkspace α π → Prop) {β : Type} (p : Task α π β)
    (post : β → ReldexWorkspace α π → Prop) : Prop :=
  Prog.Spec (Guarantee backend) service (fun w => w.waiting = [] ∧ Busy [] w) pre p post

theorem answers_push (w : ReldexWorkspace α π) (reply : QueuedWorkspaceReply π) :
    { w with replies := w.replies ++ [reply] }.answers = w.answers ++ [reply].filter fun reply => reply.call.isSome := by
  simp only [ReldexWorkspace.answers,ReldexWorkspace.events,← append_assoc,filter_append]

theorem Busy.push (busy : Busy [command] w) (answers : Answers command reply) :
    Busy [] { w with replies := w.replies ++ [reply] } := by
  obtain ⟨alive,closing,done,received,answered⟩ := busy
  refine ⟨alive,closing,done ++ [command],by simpa using received,?_⟩
  rw [answers_push]
  simpa [answers.call] using rel_append answered (.cons answers .nil)

theorem Busy.ordered (busy : Busy hand w) : Ordered w :=
  let ⟨done,received,answered⟩ := busy.answered
  ⟨done,hand,received,answered⟩

theorem pushed_step (reply : QueuedWorkspaceReply π)
    (ordered : Ordered { w with replies := w.replies ++ [reply] }) (failing : w.failed = true → reply.Failure) :
    ServiceStep backend w { w with replies := w.replies ++ [reply] } where
  sent := rfl
  commands := rfl
  destroyed := rfl
  events := ⟨[reply],by simp [ReldexWorkspace.events],by simpa using failing⟩
  failed := id
  left := .inl
  gone := id
  ordered := ordered

theorem pushReply_calm (answers : Answers command reply) :
    ServiceSpec backend (Calm [command]) (pushReply reply : Task α π Unit) fun _ => Calm [] := by
  refine .modify (calm_stable backend _) (calm_stable backend _) fun w calm => ?_
  have busy := calm.1.push answers
  exact ⟨.of_service (pushed_step reply busy.ordered fun failed => by simp [calm.2] at failed),busy,calm.2⟩

theorem pushReply_failure (answers : Answers command reply) (fails : reply.Failure) :
    ServiceSpec backend (Busy [command]) (pushReply reply : Task α π Unit) fun _ => Busy [] := by
  refine .modify (busy_stable backend _) (busy_stable backend _) fun w busy => ?_
  exact ⟨.of_service (pushed_step reply (busy.push answers).ordered fun _ => fails),busy.push answers⟩

theorem pushReply_opened (openRequest : ReldexRequestId) (payload : Except DbError (Option π)) :
    ServiceSpec backend (Calm []) (pushReply ⟨.opened,openRequest,payload,none⟩ : Task α π Unit) fun _ => Calm [] := by
  refine .modify (calm_stable backend _) (calm_stable backend _) fun w calm => ?_
  have busy : Busy [] { w with replies := w.replies ++ [⟨.opened,openRequest,payload,none⟩] } := by
    obtain ⟨alive,closing,done,received,answered⟩ := calm.1
    refine ⟨alive,closing,done,received,?_⟩
    rw [answers_push]
    simpa using answered
  exact ⟨.of_service (pushed_step _ busy.ordered fun failed => by simp [calm.2] at failed),busy,calm.2⟩

theorem markFailed_service :
    ServiceSpec backend (Calm [command]) (markFailed : Task α π Unit) fun _ => Busy [command] := by
  refine .modify (calm_stable backend _) (busy_stable backend _) fun w calm => ?_
  have busy : Busy [command] { w with failed := true } := ⟨calm.1.alive,calm.1.closing,calm.1.answered⟩
  exact ⟨.of_service ⟨rfl,rfl,rfl,⟨[],by simp [ReldexWorkspace.events]⟩,fun _ => rfl,.inl,id,busy.ordered⟩,busy⟩

theorem Busy.take (backend : Backend σ α π) (busy : Busy [] w) :
    ServiceStep backend w w.take.2 ∧ w.take.2.failed = w.failed ∧ Busy w.take.1.toList w.take.2 ∧
      (w.take.1 = none → w.waiting = []) := by
  unfold ReldexWorkspace.take
  cases waiting : w.waiting with
  | nil =>
    exact ⟨⟨rfl,rfl,rfl,⟨[],by simp⟩,id,.inl,id,busy.ordered⟩,rfl,busy,fun _ => rfl⟩
  | cons command rest =>
    obtain ⟨alive,closing,done,received,answered⟩ := busy
    have held : Busy [command] { w with waiting := rest, received := w.received ++ [command] } :=
      ⟨alive,closing,done,by simpa using received,answered⟩
    refine ⟨⟨?_,rfl,rfl,⟨[],by simp [ReldexWorkspace.events]⟩,id,.inl,id,held.ordered⟩,rfl,held,?_⟩
    · simp [waiting]
    · simp

theorem leave_service (reason : ∀ w, pre w → Busy [] w ∧ (w.destroyed = true ∨ backend.Fails))
    (stable : Prog.Stable (Guarantee backend) service pre) :
    ServiceSpec backend pre (leave : Task α π (Turn σ α π)) (Stands backend) := by
  have kept : Prog.Stable (Guarantee backend) service
      fun w : ReldexWorkspace α π => w.receiver = false ∧ Forall₂ Answers w.received w.answers := by
    intro other s t different guaranteed known
    have step := guaranteed.callStep different
    rw [step.receiver,step.received,step.answers]
    exact known
  refine .bind (.modify stable kept fun w holds => ?_) fun _ => .pure kept fun w known => known
  obtain ⟨busy,gone⟩ := reason w holds
  refine ⟨.of_service ⟨rfl,rfl,rfl,⟨[],by simp [ReldexWorkspace.events]⟩,id,fun _ => .inr gone,fun _ => rfl,?_⟩,rfl,?_⟩
  · exact busy.ordered
  · obtain ⟨done,received,answered⟩ := busy.answered
    rw [append_nil] at received
    exact received ▸ answered

theorem serviceMain_service (openRequest : ReldexRequestId) :
    ServiceSpec backend (Calm []) (serviceMain backend openRequest) (Stands backend) := by
  unfold serviceMain
  split
  · rename_i error opened
    refine .bind (pushReply_opened openRequest _) fun _ => ?_
    exact leave_service (fun w calm => ⟨calm.1,.inr (.inl ⟨error,opened⟩)⟩) (calm_stable backend _)
  · refine .bind (pushReply_opened openRequest _) fun _ => ?_
    exact .pure (calm_stable backend _) fun w calm => calm

theorem recv_service : ServiceSpec backend (Calm []) (recv : Task α π (Option (WorkspaceCommand α)))
    fun taken w => Calm taken.toList w ∧ (taken = none → w.destroyed = true) := by
  refine .await (calm_stable backend _) (fun taken => ?_) (fun w calm off => ?_) fun w calm on => ?_
  · refine (calm_stable backend _).and fun other s t different guaranteed known none => ?_
    exact (guaranteed.callStep different).destroyed (known none)
  · refine ⟨?_,calm.1⟩
    simp only [or_eq_false_iff,not_eq_false',List.isEmpty_iff] at off
    exact off.1
  · obtain ⟨step,failed,busy,empty⟩ := calm.1.take backend
    refine ⟨.of_service step,⟨busy,failed.trans calm.2⟩,fun none => ?_⟩
    -- with nothing to take it was the last sender's end that let it go on
    simp only [empty none,isEmpty_nil,Bool.not_true,Bool.false_or,Bool.and_eq_true,Bool.not_eq_true'] at on
    exact step.destroyed.trans (calm.1.closing on.1)

theorem serve_service (store : σ) : ServiceSpec backend (Calm []) (serve backend store) (Stands backend) := by
  refine .bind recv_service fun taken => ?_
  cases taken with
  | none =>
    refine leave_service (fun w known => ⟨known.1.1,.inl (known.2 rfl)⟩) ?_
    refine (calm_stable backend _).and fun other s t different guaranteed known none => ?_
    exact (guaranteed.callStep different).destroyed (known none)
  | some command =>
    refine .from ?_ fun w known => known.1
    dsimp only
    split
    · rename_i reply next ran
      exact .bind (pushReply_calm (runCommand_answers ran)) fun _ => .pure (calm_stable backend _) fun w calm => calm
    · rename_i payload ran
      refine .bind markFailed_service fun _ => ?_
      refine .bind (pushReply_failure (failure_answers _ _) (failure_fails _ _)) fun _ => ?_
      exact .pure (busy_stable backend _) fun w busy => ⟨runCommand_panics ran,busy⟩

theorem tryRecv_service : ServiceSpec backend (Busy []) (tryRecv : Task α π (Option (WorkspaceCommand α)))
    fun taken w => Busy taken.toList w := by
  refine .modifyGet (busy_stable backend _) (fun _ => busy_stable backend _) fun w busy => ?_
  obtain ⟨step,_,held,_⟩ := busy.take backend
  exact ⟨.of_service step,held⟩

theorem drain_service (message : String) (fails : backend.Fails) :
    ServiceSpec backend (Busy []) (drain message : Task α π (Turn σ α π)) (Stands backend) := by
  refine .bind tryRecv_service fun taken => ?_
  cases taken with
  | none => exact leave_service (fun w busy => ⟨busy,.inr fails⟩) (busy_stable backend _)
  | some queued =>
    refine .bind (pushReply_failure (failure_answers _ _) (failure_fails _ _)) fun _ => ?_
    exact .pure (busy_stable backend _) fun w busy => ⟨fails,busy⟩

section

def Reached (backend : Backend σ α π) (name : Nat) (turn : Turn σ α π) (w : ReldexWorkspace α π) : Prop :=
  if name = service then Stands backend turn w else Returned name turn w

def Waits (name : Nat) (w : ReldexWorkspace α π) : Prop := name = service ∧ w.waiting = [] ∧ Busy [] w

theorem ServiceSpec.reached (spec : ServiceSpec backend pre p (Stands backend)) :
    Prog.Spec (Guarantee backend) service (Waits service) pre p (Reached backend service) :=
  (spec.blocks fun _ waits => ⟨rfl,waits⟩).weaken fun _ _ stands => by simpa [Reached] using stands

theorem CallSpec.reached (other : name ≠ service) (spec : CallSpec backend name pre p (Returned name)) :
    Prog.Spec (Guarantee backend) name (Waits name) pre p (Reached backend name) :=
  (spec.blocks fun _ => False.elim).weaken fun _ _ returned => by simpa [Reached,other] using returned

theorem resumed_spec (again : Turn.resume backend turn = some p) :
    Prog.Spec (Guarantee backend) name (Waits name) (Reached backend name turn) p (Reached backend name) := by
  by_cases same : name = service
  · subst same
    cases turn with
    | serving store =>
      cases again
      exact .from (serve_service store).reached fun w reached => by simpa [Reached,Stands] using reached
    | draining message =>
      cases again
      exact .from (ServiceSpec.reached (.given (drain_service message))) fun w reached => by
        simpa [Reached,Stands] using reached
    | submitted | drained | closed | ended => cases again
  · intro w reached
    simp only [Reached,same,↓reduceIte] at reached
    cases turn with
    | serving | draining => exact reached.elim
    | submitted | drained | closed | ended => cases again

theorem started_spec (starting : Starts name p) :
    Prog.Spec (Guarantee backend) name (Waits name) (fun w => Invariant backend w ∧ w.sentBy name = []) p
      (Reached backend name) := by
  cases starting with
  | submit other handle command own =>
    exact .from ((submit_call other handle command own).reached other) fun w known => known.2
  | nextReply other => exact .from ((nextReply_call other).reached other) fun w known => known.2
  | close other => exact .from ((close_call other).reached other) fun w known => known.2

def protocol (backend : Backend σ α π) : Pool.Protocol (Turn.resume backend) Starts :=
  .ofGuarantees (Guarantee backend) Waits (Reached backend) (fun name w => w.sentBy name = []) (Invariant backend)
    (fun _ _ _ invariant guaranteed => invariant.kept guaranteed) (fun name => sentBy_stable name [])
    (fun _ _ _ again => resumed_spec again) fun _ _ starting => started_spec starting

theorem new_calm : Calm [] (ReldexWorkspace.new : ReldexWorkspace α π) := ⟨⟨rfl,nofun,[],rfl,.nil⟩,rfl⟩

theorem new_invariant : Invariant backend (ReldexWorkspace.new : ReldexWorkspace α π) :=
  ⟨⟨[],[],rfl,.nil⟩,nofun,nofun,rfl⟩

variable {pool : Pool (ReldexWorkspace α π) (Turn σ α π)}
  (run : Interleaved backend (opening backend openRequest) pool)
include run

theorem follows : Pool.Follows (protocol backend) pool := by
  have start : Pool.Follows (protocol backend) (opening backend openRequest) := by
    refine ⟨new_invariant,fun name p thread => ?_,fun name _ => rfl⟩
    by_cases same : name = service
    · subst same
      obtain rfl : serviceMain backend openRequest = p := by simpa [opening] using thread
      exact (serviceMain_service openRequest).reached _ new_calm
    · simp [opening,same] at thread
  exact start.reachable run

/-- Of a pool at rest: the service waits for commands or is gone, and a call has returned. -/
theorem at_rest (rest : Pool.Stuck (Turn.resume backend) pool) (thread : pool.threads name = some p) :
    Waits name pool.state ∨ ∃ turn, p = .ret turn ∧ Turn.resume backend turn = none ∧ Reached backend name turn pool.state :=
  (follows run).stuck rest thread

theorem service_thread : ∃ p, pool.threads service = some p :=
  Option.isSome_iff_exists.mp (Pool.stays_started run (by simp [opening]))

/-- At rest every command that was taken out is answered, and nothing waits unless the service
is gone. -/
theorem rest_answered (rest : Pool.Stuck (Turn.resume backend) pool) :
    Forall₂ Answers pool.state.received pool.state.answers ∧
      (pool.state.receiver = true → pool.state.waiting = []) := by
  obtain ⟨p,thread⟩ := service_thread run
  rcases at_rest run rest thread with ⟨_,empty,busy⟩ | ⟨turn,rfl,ended,reached⟩
  · obtain ⟨done,received,answered⟩ := busy.answered
    rw [append_nil] at received
    exact ⟨received ▸ answered,fun _ => empty⟩
  · simp only [Reached,↓reduceIte] at reached
    cases turn with
    | ended => exact ⟨reached.2,fun alive => by simp [reached.1] at alive⟩
    | serving | draining => cases ended
    | submitted | drained | closed => exact reached.elim

end

def EachAnswered (pool : Pool (ReldexWorkspace α π) (Turn σ α π)) : Prop :=
  ∀ name command answer, pool.threads name = some (.ret (.submitted command answer)) →
    if answer.status = .ok then ∃ reply, pool.state.answersTo name = [reply] ∧ Answers command reply
    else pool.state.answersTo name = []

theorem answersTo_sent {w : ReldexWorkspace α π} (answered : Forall₂ Answers done w.answers)
    (received : w.received = done ++ hand) (call : Nat) :
    Forall₂ Answers (done.filter fun command => command.call = call) (w.answersTo call) ∧
      w.sentBy call = (done.filter fun command => command.call = call) ++
        (hand ++ w.waiting).filter fun command => command.call = call := by
  refine ⟨answersTo_eq call w ▸ answers_filter answered call,?_⟩
  simp [ReldexWorkspace.sentBy,received]

theorem serve_run (store : σ) (w : ReldexWorkspace α π) :
    ((serve backend store).run w).1 = .ended ∨ ((serve backend store).run w).2.waiting.length < w.waiting.length := by
  cases waiting : w.waiting with
  | nil => exact .inl (by simp [serve,recv,Prog.await,Prog.run_bind,Prog.run,ReldexWorkspace.take,waiting,leave])
  | cons command rest =>
    right
    have taken : (recv : Task α π _).run w = (some command,{ w with waiting := rest, received := w.received ++ [command] }) := by
      simp [recv,Prog.await,Prog.run,ReldexWorkspace.take,waiting]
    simp only [serve,Prog.run_bind,taken]
    split <;> simp [pushReply,markFailed]

theorem drain_run (message : String) (w : ReldexWorkspace α π) :
    ((drain message : Task α π (Turn σ α π)).run w).1 = .ended ∨
      ((drain message : Task α π (Turn σ α π)).run w).2.waiting.length < w.waiting.length := by
  cases waiting : w.waiting with
  | nil => exact .inl (by simp [drain,tryRecv,ReldexWorkspace.take,waiting,leave])
  | cons command rest =>
    right
    simp [drain,tryRecv,ReldexWorkspace.take,waiting,pushReply]

theorem service_ends (again : Turn.resume backend turn = some p) (w : ReldexWorkspace α π) :
    Pool.Ends (Turn.resume backend) p w := by
  induction size : w.waiting.length using Nat.strong_induction_on generalizing turn p w with
  | _ size ih =>
    have turns : (p.run w).1 = .ended ∨ (p.run w).2.waiting.length < w.waiting.length := by
      cases turn with
      | serving store =>
        cases again
        exact serve_run store w
      | draining message =>
        cases again
        exact drain_run message w
      | submitted | drained | closed | ended => cases again
    refine .of_run fun next later => ?_
    rcases turns with ended | less
    · rw [ended] at later
      cases later
    · exact ih _ (size ▸ less) later _ rfl

section
variable {pool : Pool (ReldexWorkspace α π) (Turn σ α π)}
  (run : Interleaved backend (opening backend openRequest) pool)
include run

theorem returned_submit (thread : pool.threads name = some (.ret (.submitted command answer))) :
    pool.state.sentBy name = if answer.status = .ok then [command] else [] := by
  have reached : Reached backend name (.submitted command answer) pool.state :=
    (follows run).2.1 name _ thread pool.state .refl
  by_cases same : name = service
  · simp only [Reached,same,↓reduceIte] at reached
    exact reached.elim
  · simp only [Reached,same,↓reduceIte] at reached
    exact reached.2

/-- At any time a call has no event or, if it was accepted, the one. -/
theorem answered_once (thread : pool.threads name = some (.ret (.submitted command answer))) :
    pool.state.answersTo name = [] ∨
      answer.status = .ok ∧ ∃ reply, pool.state.answersTo name = [reply] ∧ Answers command reply := by
  have sent := returned_submit run thread
  obtain ⟨done,hand,received,answered⟩ := (follows run).1.ordered
  obtain ⟨answers,whole⟩ := answersTo_sent answered received name
  rw [sent] at whole
  split at whole
  · rename_i accepted
    rcases cons_eq_append_iff.mp whole with ⟨none,_⟩ | ⟨rest,some,nothing⟩
    · rw [none] at answers
      exact .inl (forall₂_nil_left_iff.mp answers)
    · obtain ⟨rfl,_⟩ := append_eq_nil_iff.mp nothing.symm
      rw [some] at answers
      obtain ⟨reply,replies,first,last,same⟩ := forall₂_cons_left_iff.mp answers
      rw [forall₂_nil_left_iff.mp last] at same
      exact .inr ⟨accepted,reply,same,first⟩
  · have none := (append_eq_nil_iff.mp whole.symm).1
    rw [none] at answers
    exact .inl (forall₂_nil_left_iff.mp answers)

theorem failures_after (failed : pool.state.failed = true) (path : Interleaved backend pool later) :
    later.state.failed = true ∧
      ∃ more, later.state.events = pool.state.events ++ more ∧ ∀ reply ∈ more, reply.Failure := by
  induction path with
  | refl => exact ⟨failed,[],by simp⟩
  | tail path step ih =>
    obtain ⟨failed,more,events,failures⟩ := ih
    rcases (follows (run.trans path)).moved step with same | ⟨name,guaranteed⟩
    · rw [same]
      exact ⟨failed,more,events,failures⟩
    · by_cases own : name = service
      · subst own
        have moved := Guarantee.serviceStep guaranteed
        obtain ⟨new,grown,failing⟩ := moved.events
        refine ⟨moved.failed failed,more ++ new,by rw [grown,events,append_assoc],fun reply member => ?_⟩
        exact (mem_append.mp member).elim (failures reply) (failing failed reply)
      · have moved := Guarantee.callStep own guaranteed
        exact ⟨moved.failed.trans failed,more,moved.events.trans events,failures⟩

/-- In every interleaving, panics and failed opens included, the events that answer calls answer the
first commands of the channel, one for one and in order. -/
theorem replies_keep_the_order : ∃ done later, pool.state.received ++ pool.state.waiting = done ++ later ∧
    Forall₂ Answers done pool.state.answers := by
  obtain ⟨done,hand,received,answered⟩ := (follows run).1.ordered
  exact ⟨done,hand ++ pool.state.waiting,by rw [received,append_assoc],answered⟩

theorem comes_to_rest : Pool.Terminates (Turn.resume backend) pool := by
  have finite : ∃ names : List Nat, ∀ name, name ∉ names → (opening backend openRequest).threads name = none :=
    ⟨[service],fun name other => by simpa [opening,Function.update_apply] using other⟩
  refine (follows run).terminates service (Pool.finite_threads run finite) (fun name turn w other reached => ?_)
    fun turn w _ p again => service_ends again w
  have returned : Returned name turn w := by simpa [protocol,Pool.Protocol.ofGuarantees,Reached,other] using reached
  cases turn with
  | submitted | drained | closed | ended => rfl
  | serving | draining => exact returned.elim

variable (rest : Pool.Stuck (Turn.resume backend) pool)
include rest

theorem sender_returned (sent : pool.state.sentBy call = command :: more) :
    more = [] ∧ ∃ answer, pool.threads call = some (.ret (.submitted command answer)) ∧ answer.status = .ok := by
  have other : call ≠ service := by
    rintro rfl
    simp [(follows run).1.silent] at sent
  cases thread : pool.threads call with
  | none =>
    have unsent : pool.state.sentBy call = [] := (follows run).2.2 call thread
    simp [unsent] at sent
  | some p =>
    rcases at_rest run rest thread with ⟨same,_⟩ | ⟨turn,rfl,_,reached⟩
    · exact (other same).elim
    · simp only [Reached,other,↓reduceIte] at reached
      cases turn with
      | submitted own answer =>
        rw [reached.2] at sent
        split at sent
        · obtain ⟨rfl,rfl⟩ := cons.inj sent
          exact ⟨rfl,answer,rfl,by assumption⟩
        · cases sent
      | drained | closed => simp [Returned,sent] at reached
      | serving | draining | ended => exact reached.elim

theorem left_unanswered (left : command ∈ pool.state.waiting) : ¬EachAnswered pool := by
  intro each
  obtain ⟨answered,_⟩ := rest_answered run rest
  obtain ⟨answers,whole⟩ := answersTo_sent answered (append_nil _).symm command.call
  have waits : command ∈ pool.state.waiting.filter fun other => other.call = command.call := by simpa using left
  rw [nil_append] at whole
  cases sent : pool.state.sentBy command.call with
  | nil =>
    rw [sent] at whole
    rw [(append_eq_nil_iff.mp whole.symm).2] at waits
    cases waits
  | cons own more =>
    obtain ⟨rfl,answer,thread,accepted⟩ := sender_returned run rest sent
    have answeredOnce := each command.call own answer thread
    rw [if_pos accepted] at answeredOnce
    obtain ⟨reply,only,_⟩ := answeredOnce
    -- the one command of the call is taken out, so it does not wait
    rw [only] at answers
    obtain ⟨taken,none,_,_,same⟩ := forall₂_cons_right_iff.mp answers
    rw [sent,same] at whole
    have nothing := append_eq_nil_iff.mp (cons.inj whole).2.symm
    rw [nothing.2] at waits
    cases waits

theorem answered_at_rest (empty : pool.state.waiting = []) : EachAnswered pool := by
  intro name command answer thread
  obtain ⟨answered,_⟩ := rest_answered run rest
  obtain ⟨answers,whole⟩ := answersTo_sent answered (append_nil _).symm name
  rw [empty,returned_submit run thread] at whole
  simp only [append_nil,filter_nil] at whole
  rw [← whole] at answers
  split
  · rename_i accepted
    rw [if_pos accepted] at answers
    obtain ⟨reply,none,first,last,same⟩ := forall₂_cons_left_iff.mp answers
    rw [forall₂_nil_left_iff.mp last] at same
    exact ⟨reply,same,first⟩
  · rename_i refused
    rw [if_neg refused] at answers
    exact forall₂_nil_left_iff.mp answers

end

/-- Whatever the order of submits, opening, commands, panic, last drain and exit, as long as
nobody closes: all calls and the service come to rest, and then each accepted submit has its
event and each refused one has none exactly if nothing is in the channel when the service
leaves it. That can only happen to a service whose store did not open or that panicked. -/
theorem submits_answered_iff {pool : Pool (ReldexWorkspace α π) (Turn σ α π)}
    (run : Interleaved backend (opening backend openRequest) pool) (unclosed : pool.state.destroyed = false) :
    Pool.Terminates (Turn.resume backend) pool ∧
    (∀ name command answer, pool.threads name = some (.ret (.submitted command answer)) →
      pool.state.answersTo name = [] ∨
        answer.status = .ok ∧ ∃ reply, pool.state.answersTo name = [reply] ∧ Answers command reply) ∧
    (pool.state.failed = true → ∀ later, Interleaved backend pool later →
      ∃ more, later.state.events = pool.state.events ++ more ∧ ∀ reply ∈ more, reply.Failure) ∧
    (pool.state.receiver = false → backend.Fails) ∧
    (Pool.Stuck (Turn.resume backend) pool →
      (EachAnswered pool ↔ (pool.state.receiver = false → pool.state.waiting = []))) := by
  refine ⟨comes_to_rest run,fun name command answer => answered_once run,
    fun failed later path => (failures_after run failed path).2,fun gone => ?_,fun rest => ⟨fun each gone => ?_,fun none => ?_⟩⟩
  · exact ((follows run).1.left gone).resolve_left fun closed => by simp [unclosed] at closed
  · by_contra left
    obtain ⟨command,member⟩ := exists_mem_of_ne_nil _ left
    exact left_unanswered run rest member each
  · refine answered_at_rest run rest ?_
    cases alive : pool.state.receiver with
    | true => exact (rest_answered run rest).2 alive
    | false => exact none alive

def listing (request : ReldexRequestId) (call : Nat) : WorkspaceCommand Unit := ⟨.listProfiles,request,(),call⟩
def working : Backend Unit Unit Unit := ⟨.ok (),fun _ _ _ => .ok (.ok none,())⟩
def missing : Backend Unit Unit Unit := ⟨.error (.internal "no such directory"),fun _ _ _ => .ok (.ok none,())⟩

abbrev UnitPool := Pool (ReldexWorkspace Unit Unit) (Turn Unit Unit Unit)

def earlyPool (backend : Backend Unit Unit Unit) : UnitPool :=
  ((opening backend 7).ran 1 (submit true (listing 8 1))).ran service (serviceMain backend 7)

theorem earlyPool_run (backend : Backend Unit Unit Unit)
    (ready : (serviceMain backend 7).ready ((opening backend 7).ran 1 (submit true (listing 8 1))).state = true) :
    Interleaved backend (opening backend 7) (earlyPool backend) := by
  have submitted : Interleaved backend (opening backend 7) ((opening backend 7).ran 1 (submit true (listing 8 1))) :=
    Pool.begins_alone 1 rfl (.submit (by decide) true (listing 8 1) rfl) rfl
  exact submitted.trans (Pool.alone service rfl ready)

def servedPool : UnitPool :=
  let answered := (earlyPool working).ran service (serve working ())
  ⟨answered.state,Function.update answered.threads service (some (serve working ()))⟩

theorem servedPool_run : Interleaved working (opening working 7) servedPool := by
  have serving : (earlyPool working).threads service = some (.ret (.serving ())) := rfl
  have again : ((earlyPool working).ran service (serve working ())).threads service = some (.ret (.serving ())) := rfl
  have answered := (earlyPool_run working rfl).trans (Pool.resumes_alone service serving rfl rfl)
  exact answered.tail (.resumes _ service again rfl)

def twicePool : UnitPool :=
  (((earlyPool working).ran 2 (submit true (listing 9 2))).ran service (serve working ())).ran service (serve working ())

theorem served_replies_are_in_order : twicePool.state.answers.length = 2 ∧
    ∃ done later, [listing 8 1,listing 9 2] = done ++ later ∧ Forall₂ Answers done twicePool.state.answers := by
  have submitted : Interleaved working _ ((earlyPool working).ran 2 (submit true (listing 9 2))) :=
    (earlyPool_run working rfl).trans (Pool.begins_alone 2 rfl (.submit (by decide) true (listing 9 2) rfl) rfl)
  have first := submitted.trans (Pool.resumes_alone service rfl rfl rfl)
  have run : Interleaved working (opening working 7) twicePool := first.trans (Pool.resumes_alone service rfl rfl rfl)
  exact ⟨rfl,replies_keep_the_order run⟩

theorem servedPool_rest : Pool.Stuck (Turn.resume working) servedPool := by
  refine Pool.stuck_of fun name p thread => ?_
  by_cases first : name = service
  · subst first
    cases thread
    exact .inr ⟨_,_,_,rfl,rfl⟩
  by_cases second : name = 1
  · subst second
    cases thread
    exact .inl ⟨_,rfl,rfl⟩
  · simp [servedPool,earlyPool,Pool.ran,opening,first,second] at thread

theorem served_is_answered : EachAnswered servedPool ∧ servedPool.threads 1 = some (.ret (.submitted (listing 8 1) .ok)) :=
  ⟨((submits_answered_iff servedPool_run rfl).2.2.2.2 servedPool_rest).mpr nofun,rfl⟩

/-- A command that is sent while the store is being opened, which then fails, was accepted and
is never answered. -/
theorem request_behind_failed_open : Interleaved missing (opening missing 7) (earlyPool missing) ∧
    (earlyPool missing).state.destroyed = false ∧ Pool.Stuck (Turn.resume missing) (earlyPool missing) ∧
    (earlyPool missing).threads 1 = some (.ret (.submitted (listing 8 1) .ok)) ∧
    (earlyPool missing).state.answersTo 1 = [] := by
  refine ⟨earlyPool_run missing rfl,rfl,Pool.stuck_of fun name p thread => ?_,rfl,rfl⟩
  by_cases first : name = service
  · subst first
    cases thread
    exact .inl ⟨_,rfl,rfl⟩
  by_cases second : name = 1
  · subst second
    cases thread
    exact .inl ⟨_,rfl,rfl⟩
  · simp [earlyPool,Pool.ran,opening,first,second] at thread

end Reldex.Ffi.Workspace
