import Reldex.DriverContract

/-! The connection manager keeps two stores that share no transaction: the workspace, which says
of a profile where its password is kept, and the credential store, which keeps it. An operation
on a profile is a chain of commands to the workspace's service thread, which runs them in the
order of submission; the reply to one decides which comes next. -/
namespace Reldex.Connections
open Function

section

/-- How a session authenticates, as the dialog hands it over; `unknown` is every other number. -/
inductive AuthKind where
  | unknown | password | external
  deriving DecidableEq, Repr

inductive PasswordStorageKind where
  | unknown | credentialStore | promptEachTime
  deriving DecidableEq, Repr

/-- What the dialog edits. `details` are the fields that no step of an operation looks at. -/
structure ProfileFields (δ : Type) where
  authKind : AuthKind
  username : String
  passwordStorage : PasswordStorageKind
  details : δ
  deriving DecidableEq, Repr

inductive PasswordStorage where
  | credentialStore | promptEachTime
  deriving DecidableEq, Repr

inductive Authentication where
  | password (username : String) (storage : PasswordStorage)
  | external
  deriving DecidableEq, Repr

structure StoredProfile (δ : Type) where
  authentication : Authentication
  details : δ
  deriving DecidableEq, Repr

variable {ι δ : Type}

/-- `build_profile_details`: fields with a kind that is not known are refused. -/
def ProfileFields.build (fields : ProfileFields δ) : Option (StoredProfile δ) :=
  match fields.authKind with
  | .password =>
    match fields.passwordStorage with
    | .credentialStore => some ⟨.password fields.username .credentialStore,fields.details⟩
    | .promptEachTime => some ⟨.password fields.username .promptEachTime,fields.details⟩
    | .unknown => none
  | .external => some ⟨.external,fields.details⟩
  | .unknown => none

/-- `rowFromView`. -/
def StoredProfile.view (profile : StoredProfile δ) : ProfileFields δ :=
  match profile.authentication with
  | .password username .credentialStore => ⟨.password,username,.credentialStore,profile.details⟩
  | .password username .promptEachTime => ⟨.password,username,.promptEachTime,profile.details⟩
  | .external => ⟨.external,"",.unknown,profile.details⟩

def StoredProfile.claimsPassword (profile : StoredProfile δ) : Bool :=
  match profile.authentication with
  | .password _ .credentialStore => true
  | _ => false

structure ReplyError where
  kind : ErrorKind
  native : Option Nat
  deriving DecidableEq, Repr

def ReplyError.credentialKey : Nat → String
  | 1 => "error.credential.unavailable"
  | 2 => "error.credential.notFound"
  | 3 => "error.credential.denied"
  | 4 => "error.credential.tooLarge"
  | 5 => "error.credential.invalidSecret"
  | 6 => "error.credential.malformed"
  | 7 => "error.credential.locked"
  | 8 => "error.credential.backend"
  | _ => "error.credential.unknown"

def ReplyError.kindKey : ErrorKind → String
  | .configuration => "error.configuration"
  | .connection => "error.connection"
  | .authentication => "error.authentication"
  | .networkLost => "error.networkLost"
  | .timeout => "error.timeout"
  | .cancelled => "error.cancelled"
  | .syntaxError => "error.syntax"
  | .constraint => "error.constraint"
  | .permission => "error.permission"
  | .transaction => "error.transaction"
  | .resource => "error.resource"
  | .dataConversion => "error.dataConversion"
  | .unsupported => "error.unsupported"
  | .driverInternal => "error.driverInternal"
  | .other => "error.other"

def ReplyError.messageKeyForError (error : ReplyError) (credentialContext : Bool) : String :=
  match credentialContext,error.native with
  | true,some code => credentialKey code
  | _,_ => kindKey error.kind

/-- `Unavailable` counts as done when an entry is cleared: there is no store that could hold it. -/
def ReplyError.countsAsDone (error : ReplyError) : Bool := error.native == some 1

inductive Command (ι δ : Type) where
  | createProfile (details : StoredProfile δ)
  | updateProfile (id : ι) (details : StoredProfile δ)
  | deleteProfile (id : ι)
  | credentialPut (id : ι) (secret : String)
  | credentialDelete (id : ι)

def Command.target : Command ι δ → Option ι
  | .createProfile _ => none
  | .updateProfile id _ | .deleteProfile id | .credentialPut id _ | .credentialDelete id => some id

inductive Job (ι δ : Type) where
  | listProfiles
  | change (command : Command ι δ)

inductive Answer (ι : Type) where
  | failed (error : ReplyError)
  | saved (id : ι)
  | existed (existed : Bool)
  | stored

inductive Reply (ι δ : Type) where
  | listed (rows : Except ReplyError (ι → Option (ProfileFields δ)))
  | answer (answer : Answer ι)

def Answer.error : Answer ι → Option ReplyError
  | .failed error => some error
  | _ => none

def Answer.savedId : Answer ι → Option ι
  | .saved id => some id
  | _ => none

/-- `run_command` for a command that changes a store: the reply, and what the two stores hold for
the profile with this id afterwards. A command that fails leaves both as they were. -/
def Command.run (command : Command ι δ) (failure : Option ReplyError) (id : ι)
    (profile : Option (StoredProfile δ)) (credential : Option String) :
    Answer ι × Option (StoredProfile δ) × Option String :=
  match failure with
  | some error => (.failed error,profile,credential)
  | none =>
    match command with
    | .createProfile details =>
      match profile with
      | none => (.saved id,some details,credential)
      | some _ => (.failed ⟨.configuration,none⟩,profile,credential)
    | .updateProfile _ details =>
      match profile with
      | some _ => (.saved id,some details,credential)
      | none => (.failed ⟨.configuration,none⟩,none,credential)
    | .deleteProfile _ => (.existed profile.isSome,none,credential)
    | .credentialPut _ secret => (.stored,profile,some secret)
    | .credentialDelete _ => (.existed credential.isSome,profile,none)

inductive OpKind where
  | createProfile | updateProfile | deleteProfile
  deriving DecidableEq, Repr

inductive Step where
  | createAwaitingSave | createAwaitingCredentialPut | createAwaitingFlagUpdate
  | updateAwaitingCredentialPut | updateAwaitingCredentialDelete | updateAwaitingSave
  | deleteAwaitingCredentialDelete | deleteAwaitingDelete
  deriving DecidableEq, Repr

structure PendingOp (ι δ : Type) where
  kind : OpKind
  step : Step
  /-- Empty until the first reply to a create names one. -/
  profileId : Option ι
  fields : ProfileFields δ
  passwordToPut : String
  finalPasswordStorage : PasswordStorageKind

inductive Signal (ι : Type) where
  | profileSaved (id : ι) (created : Bool)
  | profileSaveFailed (messageKey : String)
  | profileDeleted (id : ι)
  | profileDeleteFailed (messageKey : String)
  | credentialWarning (messageKey : String)
  deriving DecidableEq, Repr

/-- The requests that are known to the manager or under way, and the two stores. -/
structure Books (ι δ : Type) where
  pending : Nat → Option (PendingOp ι δ)
  nextRequestId : Nat
  commands : List (Nat × Job ι δ)
  replies : List (Nat × Reply ι δ)
  profile : ι → Option (StoredProfile δ)
  credential : ι → Option String

/-- The manager with its service, from the moment that it is ready. `rows` is the list that the
user sees. -/
structure World (ι δ : Type) extends Books ι δ where
  rows : ι → Option (ProfileFields δ)
  signals : List (Signal ι)

namespace Books

/-- `nextRequest`: a number is used up even if the call that carries it is refused. -/
def skip (b : Books ι δ) : Books ι δ := { b with nextRequestId := b.nextRequestId + 1 }

def queue (command : Command ι δ) (b : Books ι δ) : Books ι δ :=
  { b.skip with commands := b.commands ++ [(b.nextRequestId,.change command)] }

def remove (request : Nat) (b : Books ι δ) : Books ι δ :=
  { b with pending := update b.pending request none }

def insert (request : Nat) (op : PendingOp ι δ) (b : Books ι δ) : Books ι δ :=
  { b with pending := update b.pending request (some op) }

end Books

namespace World

def emit (signal : Signal ι) (w : World ι δ) : World ι δ := { w with signals := w.signals ++ [signal] }
def remove (request : Nat) (w : World ι δ) : World ι δ := { w with toBooks := w.toBooks.remove request }

end World

/-- What a `reldex_workspace_*` call queues. It refuses what it cannot build a command from, and
may refuse any other. -/
def submitted (command : Except ReplyError (Command ι δ)) (refusal : Option ReplyError) :
    Except ReplyError (Command ι δ) :=
  match command,refusal with
  | .error error,_ => .error error
  | .ok _,some error => .error error
  | .ok command,none => .ok command

def createCommand (fields : ProfileFields δ) : Except ReplyError (Command ι δ) :=
  match fields.build with
  | none => .error ⟨.driverInternal,none⟩
  | some details => .ok (.createProfile details)

def updateCommand (id : ι) (fields : ProfileFields δ) : Except ReplyError (Command ι δ) :=
  match fields.build with
  | none => .error ⟨.driverInternal,none⟩
  | some details => .ok (.updateProfile id details)

namespace World

def start (op : PendingOp ι δ) (submission : Except ReplyError (Command ι δ)) (failed : String → Signal ι)
    (w : World ι δ) : Bool × World ι δ :=
  match submission with
  | .error error => (false,{ w with toBooks := w.skip }.emit (failed (error.messageKeyForError false)))
  | .ok command => (true,{ w with toBooks := (w.queue command).insert w.nextRequestId op })

def follow (request : Nat) (op : PendingOp ι δ) (submission : Except ReplyError (Command ι δ))
    (refused : String → World ι δ → World ι δ) (w : World ι δ) : World ι δ :=
  match submission with
  | .error error => (refused (error.messageKeyForError false) { w with toBooks := w.skip }).remove request
  | .ok command =>
    { w with toBooks := ((w.queue command).remove request).insert w.nextRequestId op }

end World

namespace PendingOp

def claiming (storage : PasswordStorageKind) (op : PendingOp ι δ) : PendingOp ι δ :=
  { op with fields := { op.fields with passwordStorage := storage } }

def awaiting (step : Step) (op : PendingOp ι δ) : PendingOp ι δ := { op with step := step }

end PendingOp

variable [DecidableEq ι] [Inhabited ι] [Inhabited δ]

def finishSave (op : PendingOp ι δ) (id : ι) (created : Bool) (w : World ι δ) : World ι δ :=
  { w with rows := update w.rows id (some op.fields) }.emit (.profileSaved id created)

/-- A failed command of the credential store is reported, and the operation goes on. -/
def warn (error : Option ReplyError) (credentialContext : Bool) (w : World ι δ) : World ι δ :=
  match error with
  | none => w
  | some error => w.emit (.credentialWarning (error.messageKeyForError credentialContext))

/-- The id of an operation that has one; else the bytes of an empty id are all zero. -/
def PendingOp.id (op : PendingOp ι δ) : ι := op.profileId.getD default

/-- The id in a reply, which is zero in every reply but that to a save. -/
def Answer.id (answer : Answer ι) : ι := answer.savedId.getD default

/-- A profile is created as one that prompts, whatever was asked for. -/
def createProfile (fields : ProfileFields δ) (password : String) (refusal : Option ReplyError) (w : World ι δ) :
    Bool × World ι δ :=
  let prompting := { fields with passwordStorage := .promptEachTime }
  w.start ⟨.createProfile,.createAwaitingSave,none,prompting,password,fields.passwordStorage⟩
    (submitted (createCommand prompting) refusal) .profileSaveFailed

def continueCreateProfile (request : Nat) (op : PendingOp ι δ) (answer : Answer ι) (refusal : Option ReplyError)
    (w : World ι δ) : World ι δ :=
  match op.step with
  | .createAwaitingSave =>
    match answer.error with
    | some error => (w.emit (.profileSaveFailed (error.messageKeyForError false))).remove request
    | none =>
      let named := { op with profileId := some answer.id }
      if op.finalPasswordStorage = .credentialStore ∧ op.passwordToPut ≠ "" then
        w.follow request (named.awaiting .createAwaitingCredentialPut)
          (submitted (.ok (.credentialPut answer.id op.passwordToPut)) refusal)
          fun key w => finishSave named answer.id true (w.emit (.credentialWarning key))
      else (finishSave named answer.id true w).remove request
  | .createAwaitingCredentialPut =>
    match answer.error with
    | some error => (finishSave op op.id true (warn (some error) true w)).remove request
    | none =>
      let claiming := op.claiming .credentialStore
      w.follow request (claiming.awaiting .createAwaitingFlagUpdate)
        (submitted (updateCommand op.id claiming.fields) refusal)
        fun key w => finishSave claiming op.id true (w.emit (.credentialWarning key))
  | .createAwaitingFlagUpdate => (finishSave op op.id true (warn answer.error false w)).remove request
  | _ => w.remove request

def wantsStored (fields : ProfileFields δ) : Bool :=
  fields.passwordStorage == .credentialStore && fields.authKind == .password

/-- `updateProfile`: a new password is stored before the profile claims it, an entry that is no
longer wanted is cleared before the profile lets go of it; anything else is a plain save. -/
def updateProfile (id : ι) (fields : ProfileFields δ) (password : String) (refusal : Option ReplyError)
    (w : World ι δ) : Bool × World ι δ :=
  let previousPasswordStorage := ((w.rows id).map (·.passwordStorage)).getD .promptEachTime
  let hadStored := ((w.rows id).map wantsStored).getD false
  let op : PendingOp ι δ := ⟨.updateProfile,.updateAwaitingSave,some id,fields,"",fields.passwordStorage⟩
  if wantsStored fields = true ∧ password ≠ "" then
    w.start ({ op with passwordToPut := password }.claiming previousPasswordStorage |>.awaiting
        .updateAwaitingCredentialPut)
      (submitted (.ok (.credentialPut id password)) refusal) .profileSaveFailed
  else if wantsStored fields = false ∧ hadStored = true then
    w.start (op.awaiting .updateAwaitingCredentialDelete) (submitted (.ok (.credentialDelete id)) refusal)
      .profileSaveFailed
  else w.start op (submitted (updateCommand id fields) refusal) .profileSaveFailed

def clearingError (answer : Answer ι) : Option ReplyError := answer.error.filter fun error => !error.countsAsDone

def continueUpdateProfile (request : Nat) (op : PendingOp ι δ) (answer : Answer ι) (refusal : Option ReplyError)
    (w : World ι δ) : World ι δ :=
  match op.step with
  | .updateAwaitingCredentialPut =>
    let settled := op.claiming (if answer.error.isSome then .promptEachTime else .credentialStore)
    (warn answer.error true w).follow request (settled.awaiting .updateAwaitingSave)
      (submitted (updateCommand op.id settled.fields) refusal) fun key w => w.emit (.profileSaveFailed key)
  | .updateAwaitingCredentialDelete =>
    let prompting := op.claiming .promptEachTime
    (warn (clearingError answer) true w).follow request (prompting.awaiting .updateAwaitingSave)
      (submitted (updateCommand op.id prompting.fields) refusal) fun key w => w.emit (.profileSaveFailed key)
  | .updateAwaitingSave =>
    match answer.error with
    | some error => (w.emit (.profileSaveFailed (error.messageKeyForError false))).remove request
    | none => (finishSave op op.id false w).remove request
  | _ => w.remove request

def deleteProfile (id : ι) (refusal : Option ReplyError) (w : World ι δ) : Bool × World ι δ :=
  let fields : ProfileFields δ := ⟨.password,"",.promptEachTime,default⟩
  w.start ⟨.deleteProfile,.deleteAwaitingCredentialDelete,some id,fields,"",.promptEachTime⟩
    (submitted (.ok (.credentialDelete id)) refusal) .profileDeleteFailed

def continueDeleteProfile (request : Nat) (op : PendingOp ι δ) (answer : Answer ι) (refusal : Option ReplyError)
    (w : World ι δ) : World ι δ :=
  match op.step with
  | .deleteAwaitingCredentialDelete =>
    (warn (clearingError answer) true w).follow request (op.awaiting .deleteAwaitingDelete)
      (submitted (.ok (.deleteProfile op.id)) refusal) fun key w => w.emit (.profileDeleteFailed key)
  | .deleteAwaitingDelete =>
    match answer.error with
    | some error => (w.emit (.profileDeleteFailed (error.messageKeyForError false))).remove request
    | none =>
      ({ w with rows := update w.rows op.id none }.emit (.profileDeleted op.id)).remove request
  | _ => w.remove request

/-- The reply to the first `list_profiles` fills the list; every other reply belongs to an
operation or to nobody. -/
def handleReply (request : Nat) (reply : Reply ι δ) (refusal : Option ReplyError) (w : World ι δ) : World ι δ :=
  match reply with
  | .listed (.ok rows) => { w with rows := rows }
  | .listed (.error _) => w
  | .answer answer =>
    match w.pending request with
    | none => w
    | some op =>
      match op.kind with
      | .createProfile => continueCreateProfile request op answer refusal w
      | .updateProfile => continueUpdateProfile request op answer refusal w
      | .deleteProfile => continueDeleteProfile request op answer refusal w

/-- The service takes one command. `drawn` is the id that a new profile draws. -/
def serve (failure : Option ReplyError) (drawn : ι) (w : World ι δ) : World ι δ :=
  match w.commands with
  | [] => w
  | (request,.listProfiles) :: rest =>
    let rows : Except ReplyError (ι → Option (ProfileFields δ)) :=
      match failure with
      | some error => .error error
      | none => .ok fun id => (w.profile id).map StoredProfile.view
    { w with commands := rest, replies := w.replies ++ [(request,.listed rows)] }
  | (request,.change command) :: rest =>
    let id := command.target.getD drawn
    let result := command.run failure id (w.profile id) (w.credential id)
    { w with
      commands := rest
      replies := w.replies ++ [(request,.answer result.1)]
      profile := update w.profile id result.2.1
      credential := update w.credential id result.2.2 }

def handle (refusal : Option ReplyError) (w : World ι δ) : World ι δ :=
  match w.replies with
  | [] => w
  | (request,reply) :: rest => handleReply request reply refusal { w with replies := rest }

/-- What can happen next: a call, a command of the service, a reply. Each says whether the call
that it makes is refused, or the command fails. -/
inductive Move (ι δ : Type) where
  | createProfile (fields : ProfileFields δ) (password : String) (refusal : Option ReplyError)
  | updateProfile (id : ι) (fields : ProfileFields δ) (password : String) (refusal : Option ReplyError)
  | deleteProfile (id : ι) (refusal : Option ReplyError)
  | serve (failure : Option ReplyError) (drawn : ι)
  | handle (refusal : Option ReplyError)

def Move.perform (w : World ι δ) : Move ι δ → World ι δ
  | .createProfile fields password refusal => (Connections.createProfile fields password refusal w).2
  | .updateProfile id fields password refusal => (Connections.updateProfile id fields password refusal w).2
  | .deleteProfile id refusal => (Connections.deleteProfile id refusal w).2
  | .serve failure drawn => Connections.serve failure drawn w
  | .handle refusal => Connections.handle refusal w

end

variable {ι δ : Type}

def Step.kind : Step → OpKind
  | .createAwaitingSave | .createAwaitingCredentialPut | .createAwaitingFlagUpdate => .createProfile
  | .updateAwaitingCredentialPut | .updateAwaitingCredentialDelete | .updateAwaitingSave => .updateProfile
  | .deleteAwaitingCredentialDelete | .deleteAwaitingDelete => .deleteProfile

/-- The call that an operation makes next when it gets this answer, and what it becomes then; none
if it ends. -/
def PendingOp.next [Inhabited ι] (op : PendingOp ι δ) (answer : Answer ι) :
    Option (PendingOp ι δ × Except ReplyError (Command ι δ)) :=
  match op.step with
  | .createAwaitingSave =>
    if answer.error = none ∧ op.finalPasswordStorage = .credentialStore ∧ op.passwordToPut ≠ "" then
      some (({ op with profileId := some answer.id } : PendingOp ι δ).awaiting .createAwaitingCredentialPut,
        .ok (.credentialPut answer.id op.passwordToPut))
    else none
  | .createAwaitingCredentialPut =>
    if answer.error = none then
      some ((op.claiming .credentialStore).awaiting .createAwaitingFlagUpdate,
        updateCommand op.id (op.claiming .credentialStore).fields)
    else none
  | .updateAwaitingCredentialPut =>
    let settled := op.claiming (if answer.error.isSome then .promptEachTime else .credentialStore)
    some (settled.awaiting .updateAwaitingSave,updateCommand op.id settled.fields)
  | .updateAwaitingCredentialDelete =>
    some ((op.claiming .promptEachTime).awaiting .updateAwaitingSave,
      updateCommand op.id (op.claiming .promptEachTime).fields)
  | .deleteAwaitingCredentialDelete =>
    some (op.awaiting .deleteAwaitingDelete,.ok (.deleteProfile op.id))
  | .createAwaitingFlagUpdate | .updateAwaitingSave | .deleteAwaitingDelete => none

/-- A later call of an operation in the books: it takes the place of the request that was
answered, and the operation is gone if it is refused. -/
def Books.followed (request : Nat) (op : PendingOp ι δ) (submission : Except ReplyError (Command ι δ))
    (b : Books ι δ) : Books ι δ :=
  match submission with
  | .error _ => b.skip.remove request
  | .ok command => ((b.queue command).remove request).insert b.nextRequestId op

def Books.carryOn [Inhabited ι] (request : Nat) (op : PendingOp ι δ) (answer : Answer ι) (refusal : Option ReplyError)
    (b : Books ι δ) : Books ι δ :=
  match op.next answer with
  | none => b.remove request
  | some (later,command) => b.followed request later (submitted command refusal)

theorem warn_books (error : Option ReplyError) (credentialContext : Bool) (w : World ι δ) :
    (warn error credentialContext w).toBooks = w.toBooks := by cases error <;> rfl

theorem follow_books (quiet : ∀ key w, (refused key w).toBooks = w.toBooks) (request : Nat) (op : PendingOp ι δ)
    (submission : Except ReplyError (Command ι δ)) (w : World ι δ) :
    (w.follow request op submission refused).toBooks = w.toBooks.followed request op submission := by
  cases submission with
  | error error => exact congrArg (Books.remove request) (quiet _ _)
  | ok => rfl

theorem warn_follow_books (quiet : ∀ key w, (refused key w).toBooks = w.toBooks) (request : Nat) (op : PendingOp ι δ)
    (submission : Except ReplyError (Command ι δ)) (error : Option ReplyError) (w : World ι δ) :
    ((warn error true w).follow request op submission refused).toBooks =
      w.toBooks.followed request op submission := by
  rw [follow_books quiet,warn_books]

variable [DecidableEq ι] [Inhabited ι]

theorem handleReply_books
    (pending : w.pending request = some op) (coherent : op.kind = op.step.kind) (answer : Answer ι)
    (refusal : Option ReplyError) :
    (handleReply request (.answer answer) refusal w).toBooks = w.toBooks.carryOn request op answer refusal := by
  unfold Books.carryOn PendingOp.next
  cases step : op.step <;> rw [step] at coherent <;>
    simp only [handleReply,pending,coherent,Step.kind,continueCreateProfile,continueUpdateProfile,
      continueDeleteProfile,step]
  case createAwaitingSave =>
    cases error : answer.error with
    | some => rfl
    | none =>
      by_cases wanted : op.finalPasswordStorage = .credentialStore ∧ op.passwordToPut ≠ ""
      · simp only [true_and,if_pos wanted]
        exact follow_books (by exact fun _ _ => rfl) _ _ _ _
      · simp only [true_and,if_neg wanted]
        rfl
  case createAwaitingCredentialPut =>
    cases error : answer.error with
    | some => rfl
    | none => exact follow_books (by exact fun _ _ => rfl) _ _ _ _
  case createAwaitingFlagUpdate => exact congrArg (Books.remove request) (warn_books _ _ _)
  case updateAwaitingSave | deleteAwaitingDelete => cases answer.error <;> rfl
  all_goals exact warn_follow_books (by exact fun _ _ => rfl) _ _ _ _ _

end Reldex.Connections
