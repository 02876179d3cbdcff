import Reldex.ConnectionManager

/-! Operations that do not overlap. As long as no two of them work on one profile, each runs as if
it were alone with the profile and its entry: what is known of the two while a command or its
reply waits is kept by every other operation. -/
namespace Reldex.Connections
open List Option Function Nat
variable {ι δ : Type}

inductive Stage (ι δ : Type) where
  | settled
  | sent (op : PendingOp ι δ) (command : Command ι δ)
  | answered (op : PendingOp ι δ) (answer : Answer ι)

/-- What is known of a profile and its entry, by the stage of the operation on it. -/
abbrev Knowledge (ι δ : Type) := Stage ι δ → Option (StoredProfile δ) → Option String → Prop

/-- The profile that an operation works on; a create learns it from its first reply. -/
def PendingOp.subject (op : PendingOp ι δ) (answer : Answer ι) : Option ι := op.profileId.or answer.savedId

namespace Books

def inFlight (b : Books ι δ) : List Nat := b.replies.map Prod.fst ++ b.commands.map Prod.fst

/-- The operation behind a request works on this profile, or on the profile that it has just
created. -/
def Concerns (b : Books ι δ) (request : Nat) (id : ι) : Prop :=
  ∃ op, b.pending request = some op ∧ (op.profileId = some id ∨ (request,Reply.answer (.saved id)) ∈ b.replies)

def Busy (b : Books ι δ) (id : ι) : Prop := ∃ request, b.Concerns request id

def served [DecidableEq ι] (b : Books ι δ) (request : Nat) (rest : List (Nat × Job ι δ)) (id : ι)
    (answer : Answer ι) (profile : Option (StoredProfile δ)) (credential : Option String) : Books ι δ :=
  { b with
    commands := rest
    replies := b.replies ++ [(request,.answer answer)]
    profile := update b.profile id profile
    credential := update b.credential id credential }

def profileAt (b : Books ι δ) (id : Option ι) : Option (StoredProfile δ) := id.bind b.profile
def credentialAt (b : Books ι δ) (id : Option ι) : Option String := id.bind b.credential

end Books

structure PendingOp.Fits (op : PendingOp ι δ) (command : Command ι δ) : Prop where
  coherent : op.kind = op.step.kind
  target : op.profileId = command.target
  creating : op.step = .createAwaitingSave ↔ command.target = none

structure PendingOp.Gets (op : PendingOp ι δ) (answer : Answer ι) : Prop where
  coherent : op.kind = op.step.kind
  saved : ∀ id, answer.savedId = some id → op.subject answer = some id
  created : op.step = .createAwaitingSave → op.profileId = none ∧ (answer.error ≠ none ∨ answer.savedId ≠ none)
  named : op.step ≠ .createAwaitingSave → op.profileId ≠ none

/-- The books of operations that do not overlap. Nothing is known of the profile that is `free`: an
operation on it is about to end or to go on. -/
structure Tracked (knows : Knowledge ι δ) (free : Option ι) (b : Books ι δ) : Prop where
  known : ∀ request ∈ b.inFlight, request < b.nextRequestId
  once : b.inFlight.Nodup
  older : ∀ request op, b.pending request = some op → request < b.nextRequestId
  apart : ∀ first second id, b.Concerns first id → b.Concerns second id → first = second
  settled : ∀ id, free ≠ some id → ¬b.Busy id → knows .settled (b.profile id) (b.credential id)
  sent : ∀ request command, (request,Job.change command) ∈ b.commands → ∃ op, b.pending request = some op ∧
    op.Fits command ∧ knows (.sent op command) (b.profileAt command.target) (b.credentialAt command.target)
  answered : ∀ request answer, (request,Reply.answer answer) ∈ b.replies → ∃ op, b.pending request = some op ∧
    op.Gets answer ∧ knows (.answered op answer) (b.profileAt (op.subject answer)) (b.credentialAt (op.subject answer))

namespace Books
variable {b : Books ι δ} {request : Nat}

theorem mem_inFlight_of_reply (member : (request,reply) ∈ b.replies) :
    request ∈ b.inFlight := mem_append_left _ (mem_map_of_mem member)

theorem mem_inFlight_of_command (member : (request,job) ∈ b.commands) :
    request ∈ b.inFlight := mem_append_right _ (mem_map_of_mem member)

end Books

namespace Tracked
variable {knows : Knowledge ι δ} {free : Option ι} {b : Books ι δ} {request : Nat}

section
variable (tracked : Tracked knows free b)
include tracked

theorem unique_answer (member : (request,reply) ∈ b.replies) (also : (request,other) ∈ b.replies) : reply = other := by
  have replies : (b.replies.map Prod.fst).Nodup := (nodup_append.mp tracked.once).1
  exact congrArg Prod.snd (inj_on_of_nodup_map replies member also rfl)

theorem concerns_iff
    (member : (request,Reply.answer answer) ∈ b.replies) (pending : b.pending request = some op) (id : ι) :
    b.Concerns request id ↔ op.subject answer = some id := by
  obtain ⟨found,same,gets,_⟩ := tracked.answered request answer member
  obtain rfl : op = found := some.inj (pending.symm.trans same)
  constructor
  · rintro ⟨found,same,target | saved⟩
    · obtain rfl : op = found := some.inj (pending.symm.trans same)
      simp [PendingOp.subject,target]
    · have eq : Reply.answer answer = .answer (.saved id) := tracked.unique_answer member saved
      exact gets.saved id (by cases eq; rfl)
  · intro subject
    refine ⟨op,pending,?_⟩
    cases target : op.profileId with
    | some other => exact .inl (by simpa [PendingOp.subject,target] using subject)
    | none =>
      have saved : answer = .saved id := by
        cases answer <;> simp_all [PendingOp.subject,Answer.savedId]
      exact .inr (saved ▸ member)

theorem sent_concerns_iff (member : (request,Job.change command) ∈ b.commands) (id : ι) :
    b.Concerns request id ↔ command.target = some id := by
  obtain ⟨op,pending,⟨_,target,_⟩,_⟩ := tracked.sent request command member
  constructor
  · rintro ⟨found,same,mine | saved⟩
    · obtain rfl : op = found := some.inj (pending.symm.trans same)
      exact target ▸ mine
    · have apart := (nodup_append.mp tracked.once).2.2
      exact absurd rfl (apart _ (mem_map_of_mem saved) _ (mem_map_of_mem member))
  · intro named
    exact ⟨op,pending,.inl (target.trans named)⟩

theorem skip : Tracked knows free b.skip :=
  { tracked with
    known := fun request member => lt_succ_of_lt (tracked.known request member)
    older := fun request op pending => lt_succ_of_lt (tracked.older request op pending) }

end

theorem loosen (tracked : Tracked knows none b) (free : Option ι) : Tracked knows free b :=
  { tracked with settled := fun id _ => tracked.settled id (by simp) }

theorem settle (tracked : Tracked knows free b)
    (settles : ∀ id, free = some id → knows .settled (b.profile id) (b.credential id)) : Tracked knows none b :=
  { tracked with
    settled := fun id _ idle => by
      by_cases freed : free = some id
      · exact settles id freed
      · exact tracked.settled id freed idle }

theorem drop (tracked : Tracked knows free b) (head : b.replies = (request,.listed rows) :: rest) :
    Tracked knows free { b with replies := rest } := by
  have same : ∀ other id, Books.Concerns { b with replies := rest } other id ↔ b.Concerns other id := by
    intro other id
    simp [Books.Concerns,head]
  have fewer : List.Sublist (Books.inFlight { b with replies := rest }) b.inFlight := by
    simp [Books.inFlight,head]
  refine ⟨fun other member => tracked.known other (fewer.mem member),tracked.once.sublist fewer,tracked.older,
    fun first second id one two => tracked.apart first second id ((same _ _).mp one) ((same _ _).mp two),
    fun id apart idle => tracked.settled id apart fun busy => idle ?_,tracked.sent,fun other answer member => ?_⟩
  · exact ⟨_,(same _ _).mpr busy.choose_spec⟩
  · exact tracked.answered other answer (by simp [head,member])

theorem lists (tracked : Tracked knows free b) (head : b.commands = (request,.listProfiles) :: rest)
    (rows : Except ReplyError (ι → Option (ProfileFields δ))) :
    Tracked knows free { b with commands := rest, replies := b.replies ++ [(request,.listed rows)] } := by
  generalize after : Books.mk .. = next
  have same : ∀ other id, next.Concerns other id ↔ b.Concerns other id := by
    intro other id
    simp [← after,Books.Concerns]
  have flight : next.inFlight = b.inFlight := by
    simp [← after,Books.inFlight,head]
  have busy : ∀ {id}, b.Busy id → next.Busy id := fun busy => ⟨_,(same _ _).mpr busy.choose_spec⟩
  refine ⟨?_,flight ▸ tracked.once,?_,
    fun first second id one two => tracked.apart first second id ((same _ _).mp one) ((same _ _).mp two),?_,?_,?_⟩
  all_goals subst after
  · rw [flight]
    exact tracked.known
  · exact tracked.older
  · exact fun id apart idle => tracked.settled id apart fun was => idle (busy was)
  · exact fun other command waits => tracked.sent other command (by rw [head]; exact mem_cons_of_mem _ waits)
  · exact fun other answer waits => tracked.answered other answer (by simpa using waits)

/-- The reply of an operation is taken: its profile is free until the operation ends or goes on. -/
theorem release (tracked : Tracked knows none b) (head : b.replies = (request,.answer answer) :: rest)
    (pending : b.pending request = some op) :
    Tracked knows (op.subject answer) (Books.remove request { b with replies := rest }) ∧
    ∀ id, op.subject answer = some id → ¬(Books.remove request { b with replies := rest }).Busy id := by
  have member : (request,Reply.answer answer) ∈ b.replies := by simp [head]
  have fewer : List.Sublist (Books.inFlight { b with replies := rest }) b.inFlight := by
    simp [Books.inFlight,head]
  have gone : request ∉ Books.inFlight { b with replies := rest } := by
    have once := tracked.once
    simp only [Books.inFlight,head,map_cons,cons_append,nodup_cons] at once
    exact once.1
  have others : ∀ {other}, other ≠ request →
      (Books.remove request { b with replies := rest }).pending other = b.pending other :=
    fun apart => update_of_ne apart _ _
  have same : ∀ other id, (Books.remove request { b with replies := rest }).Concerns other id ↔
      other ≠ request ∧ b.Concerns other id := by
    intro other id
    by_cases eq : other = request
    · subst eq
      simp [Books.Concerns,Books.remove]
    · simp [Books.Concerns,eq,head,Books.remove]
  refine ⟨⟨fun other member => tracked.known other (fewer.mem member),tracked.once.sublist fewer,
    fun other op found => ?_,
    fun first second id one two => tracked.apart first second id ((same _ _).mp one).2 ((same _ _).mp two).2,
    fun id apart idle => tracked.settled id (by simp) ?_,fun other command waits => ?_,
    fun other answer waits => ?_⟩,?_⟩
  · have apart : other ≠ request := by
      rintro rfl
      simp [Books.remove] at found
    exact tracked.older other op (others apart ▸ found)
  · rintro ⟨other,concerns⟩
    by_cases eq : other = request
    · exact apart ((tracked.concerns_iff member pending id).mp (eq ▸ concerns))
    · exact idle ⟨other,(same _ _).mpr ⟨eq,concerns⟩⟩
  · have apart : other ≠ request := by
      rintro rfl
      exact gone (Books.mem_inFlight_of_command waits)
    rw [others apart]
    exact tracked.sent other command waits
  · have apart : other ≠ request := by
      rintro rfl
      exact gone (Books.mem_inFlight_of_reply waits)
    rw [others apart]
    exact tracked.answered other answer (by rw [head]; exact mem_cons_of_mem _ waits)
  · rintro id subject ⟨other,concerns⟩
    obtain ⟨apart,concerns⟩ := (same _ _).mp concerns
    exact apart (tracked.apart other request id concerns ((tracked.concerns_iff member pending id).mpr subject))

/-- A call is queued for an operation on a profile that no other operation works on. -/
theorem begins (tracked : Tracked knows free b) (freed : free = command.target) (fits : op.Fits command)
    (idle : ∀ id, command.target = some id → ¬b.Busy id)
    (knowing : knows (.sent op command) (b.profileAt command.target) (b.credentialAt command.target)) :
    Tracked knows none ((b.queue command).insert b.nextRequestId op) := by
  have unseen : b.nextRequestId ∉ b.inFlight := fun member => lt_irrefl _ (tracked.known _ member)
  have others : ∀ {other}, other ≠ b.nextRequestId →
      ((b.queue command).insert b.nextRequestId op).pending other = b.pending other :=
    fun apart => update_of_ne apart _ _
  have mine : ((b.queue command).insert b.nextRequestId op).pending b.nextRequestId = some op :=
    update_self _ _ _
  have kept : ((b.queue command).insert b.nextRequestId op).replies = b.replies := rfl
  have same : ∀ other id, ((b.queue command).insert b.nextRequestId op).Concerns other id ↔
      (other = b.nextRequestId ∧ command.target = some id) ∨ (other ≠ b.nextRequestId ∧ b.Concerns other id) := by
    intro other id
    by_cases eq : other = b.nextRequestId
    · subst eq
      have absent : (b.nextRequestId,Reply.answer (.saved id)) ∉ b.replies :=
        fun member => unseen (Books.mem_inFlight_of_reply member)
      simp [Books.Concerns,mine,kept,absent,fits.target]
    · simp [Books.Concerns,others eq,kept,eq]
  have flight : ((b.queue command).insert b.nextRequestId op).inFlight = b.inFlight ++ [b.nextRequestId] := by
    simp [Books.inFlight,Books.insert,Books.queue,Books.skip]
  refine ⟨fun other member => ?_,?_,fun other found pending => ?_,fun first second id one two => ?_,
    fun id _ quiet => ?_,fun other found waits => ?_,fun other answer waits => ?_⟩
  · rw [flight,mem_append,mem_singleton] at member
    rcases member with old | rfl
    · exact lt_succ_of_lt (tracked.known other old)
    · exact lt_succ_self _
  · rw [flight]
    refine nodup_append.mpr ⟨tracked.once,nodup_singleton _,fun other old last new eq => ?_⟩
    exact unseen (mem_singleton.mp new ▸ eq ▸ old)
  · by_cases eq : other = b.nextRequestId
    · subst eq
      exact lt_succ_self _
    · exact lt_succ_of_lt (tracked.older other found (others eq ▸ pending))
  · rcases (same _ _).mp one with ⟨rfl,target⟩ | ⟨_,one⟩ <;> rcases (same _ _).mp two with ⟨rfl,target'⟩ | ⟨_,two⟩
    · rfl
    · exact absurd ⟨_,two⟩ (idle id target)
    · exact absurd ⟨_,one⟩ (idle id target')
    · exact tracked.apart first second id one two
  · refine tracked.settled id (fun target => quiet ⟨_,(same _ _).mpr (.inl ⟨rfl,freed ▸ target⟩)⟩) ?_
    rintro ⟨other,concerns⟩
    have old : other ≠ b.nextRequestId := by
      obtain ⟨_,pending,_⟩ := concerns
      exact Nat.ne_of_lt (tracked.older other _ pending)
    exact quiet ⟨other,(same _ _).mpr (.inr ⟨old,concerns⟩)⟩
  · rcases mem_append.mp waits with old | last
    · have apart : other ≠ b.nextRequestId := by
        rintro rfl
        exact unseen (Books.mem_inFlight_of_command old)
      rw [others apart]
      exact tracked.sent other found old
    · obtain ⟨rfl,eq⟩ := Prod.mk.inj (mem_singleton.mp last)
      obtain rfl := Job.change.inj eq
      exact ⟨op,mine,fits,knowing⟩
  · have apart : other ≠ b.nextRequestId := by
      rintro rfl
      exact unseen (Books.mem_inFlight_of_reply waits)
    rw [others apart]
    exact tracked.answered other answer waits

variable [DecidableEq ι]

/-- The service runs the command of an operation. No other operation works on the profile that it
changes; a create that fails changes none. -/
theorem serves (tracked : Tracked knows none b) (head : b.commands = (request,.change command) :: rest)
    (pending : b.pending request = some op) {id : ι} (own : ∀ other, b.Concerns other id → other = request)
    (named : ∀ other, command.target = some other → other = id)
    (saves : ∀ other, answer.savedId = some other → other = id) (gets : op.Gets answer)
    (knowing : op.subject answer = some id ∧ knows (.answered op answer) profile credential ∨
      op.subject answer = none ∧ profile = b.profile id ∧ credential = b.credential id ∧
        knows (.answered op answer) none none) :
    Tracked knows none (b.served request rest id answer profile credential) := by
  have member : (request,Job.change command) ∈ b.commands := by simp [head]
  obtain ⟨found,also,⟨_,target,_⟩,_⟩ := tracked.sent request command member
  obtain rfl : op = found := some.inj (pending.symm.trans also)
  have subject : ∀ other, op.subject answer = some other ↔
      command.target = some other ∨ answer.savedId = some other := by
    intro other
    cases first : command.target with
    | none => simp [PendingOp.subject,target,first]
    | some mine =>
      obtain rfl := named mine first
      simp only [PendingOp.subject,target,first,some_or,iff_self_or]
      exact fun saved => congrArg some (saves other saved).symm
  have flight : (b.served request rest id answer profile credential).inFlight = b.inFlight := by
    simp [Books.served,Books.inFlight,head]
  have silent : ∀ reply, (request,reply) ∉ b.replies := fun reply replied =>
    (nodup_append.mp tracked.once).2.2 _ (mem_map_of_mem replied) _ (mem_map_of_mem member) rfl
  have same : ∀ other x, (b.served request rest id answer profile credential).Concerns other x ↔
      (other = request ∧ op.subject answer = some x) ∨ (other ≠ request ∧ b.Concerns other x) := by
    intro other x
    by_cases eq : other = request
    · subst eq
      have saved : Answer.saved x = answer ↔ answer.savedId = some x := by
        cases answer <;> simp [Answer.savedId,eq_comm]
      simp [Books.Concerns,Books.served,pending,silent,subject,target,saved]
    · simp [Books.Concerns,Books.served,eq]
  have elsewhere : ∀ {other x}, other ≠ request → b.Concerns other x → x ≠ id := by
    rintro other x apart concerns rfl
    exact apart (own other concerns)
  have profiles : ∀ {x}, x ≠ some id →
      (b.served request rest id answer profile credential).profileAt x = b.profileAt x ∧
      (b.served request rest id answer profile credential).credentialAt x = b.credentialAt x := by
    intro x apart
    cases x with
    | none => exact ⟨rfl,rfl⟩
    | some x =>
      have apart : x ≠ id := fun eq => apart (congrArg some eq)
      exact ⟨update_of_ne apart _ _,update_of_ne apart _ _⟩
  refine ⟨by rw [flight]; exact tracked.known,flight ▸ tracked.once,tracked.older,
    fun first second x one two => ?_,fun x _ idle => ?_,fun other waiting waits => ?_,
    fun other found waits => ?_⟩
  · have mine : ∀ {x}, op.subject answer = some x → x = id := fun {x} is =>
      ((subject x).mp is).elim (named x) (saves x)
    rcases (same _ _).mp one with ⟨eq,is⟩ | ⟨apart,old⟩ <;> rcases (same _ _).mp two with ⟨eq',is'⟩ | ⟨apart',old'⟩
    · exact eq.trans eq'.symm
    · exact absurd (mine is) (elsewhere apart' old')
    · exact absurd (mine is') (elsewhere apart old)
    · exact tracked.apart first second x old old'
  · have quiet : ¬b.Busy x := by
      rintro ⟨other,concerns⟩
      by_cases eq : other = request
      · have named := (tracked.sent_concerns_iff member x).mp (eq ▸ concerns)
        exact idle ⟨request,(same _ _).mpr (.inl ⟨rfl,(subject x).mpr (.inl named)⟩)⟩
      · exact idle ⟨other,(same _ _).mpr (.inr ⟨eq,concerns⟩)⟩
    have known := tracked.settled x (by simp) quiet
    by_cases eq : x = id
    · subst eq
      rcases knowing with ⟨is,_⟩ | ⟨_,rfl,rfl,_⟩
      · exact absurd ⟨request,(same _ _).mpr (.inl ⟨rfl,is⟩)⟩ idle
      · simpa [Books.served] using known
    · simpa [Books.served,eq] using known
  · have old : (other,Job.change waiting) ∈ b.commands := by
      rw [head]
      exact mem_cons_of_mem _ waits
    have apart : other ≠ request := by
      rintro rfl
      have once := (nodup_append.mp tracked.once).2.1
      rw [head,map_cons,nodup_cons] at once
      exact once.1 (mem_map.mpr ⟨_,waits,rfl⟩)
    obtain ⟨op,pending,fits,known⟩ := tracked.sent other waiting old
    obtain ⟨profile,credential⟩ := profiles (x := waiting.target) fun eq =>
      elsewhere apart ((tracked.sent_concerns_iff old id).mpr eq) rfl
    exact ⟨op,pending,fits,by rw [profile,credential]; exact known⟩
  · rcases mem_append.mp waits with old | last
    · have apart : other ≠ request := by
        rintro rfl
        exact silent _ old
      obtain ⟨op,pending,fits,known⟩ := tracked.answered other found old
      obtain ⟨profile,credential⟩ := profiles (x := op.subject found) fun eq =>
        elsewhere apart ((tracked.concerns_iff old pending id).mpr eq) rfl
      exact ⟨op,pending,fits,by rw [profile,credential]; exact known⟩
    · obtain ⟨rfl,eq⟩ := Prod.mk.inj (mem_singleton.mp last)
      obtain rfl := Reply.answer.inj eq
      refine ⟨op,pending,gets,?_⟩
      rcases knowing with ⟨is,known⟩ | ⟨is,_,_,known⟩
      · rw [is]
        simpa [Books.served,Books.profileAt,Books.credentialAt] using known
      · rw [is]
        exact known

end Tracked

inductive Opens (id : ι) (fields : ProfileFields δ) (password : String) (op : PendingOp ι δ) :
    Command ι δ → Prop where
  | puts (wanted : wantsStored fields = true) (typed : password ≠ "") (step : op.step = .updateAwaitingCredentialPut) :
    Opens id fields password op (.credentialPut id password)
  | clears (unwanted : wantsStored fields = false) (step : op.step = .updateAwaitingCredentialDelete) :
    Opens id fields password op (.credentialDelete id)
  | saves {details : StoredProfile δ} (untyped : wantsStored fields = true → password = "")
      (built : fields.build = some details) (step : op.step = .updateAwaitingSave) :
    Opens id fields password op (.updateProfile id details)

/-- On what terms calls are made and fail: when a profile may be updated, when the command of an
operation may fail, and when its next call may be refused. -/
structure Terms (ι δ : Type) where
  mayUpdate : ProfileFields δ → String → Option (StoredProfile δ) → Option String → Prop
  mayFail : Command ι δ → Option (StoredProfile δ) → Option String → Prop
  mayRefuse : Option (StoredProfile δ) → Option String → Prop

section
variable [Inhabited ι]

/-- The moves of operations that do not overlap and keep to the terms. An operation on a profile
begins when no other works on it, and a new profile draws an id that is not in use. -/
def Terms.Allow (terms : Terms ι δ) (w : World ι δ) : Move ι δ → Prop
  | .createProfile _ _ _ => True
  | .updateProfile id fields password _ =>
    ¬w.Busy id ∧ terms.mayUpdate fields password (w.profile id) (w.credential id)
  | .deleteProfile id _ => ¬w.Busy id
  | .serve failure drawn => ∀ request command rest, w.commands = (request,.change command) :: rest →
    (command.target = none → ¬w.Busy drawn) ∧
    (failure.isSome = true → ∀ id, command.target = some id → terms.mayFail command (w.profile id) (w.credential id))
  | .handle refusal => ∀ request answer rest op later command error,
    w.replies = (request,.answer answer) :: rest → w.pending request = some op →
    op.next answer = some (later,command) → submitted command refusal = .error error →
    ∀ id, later.profileId = some id → terms.mayRefuse (w.profile id) (w.credential id)

/-- What is known of a profile holds from one stage to the next while one operation is alone with
it. -/
structure Upheld (terms : Terms ι δ) (knows : Knowledge ι δ) : Prop where
  creates : ∀ (op : PendingOp ι δ) (details : StoredProfile δ), op.step = .createAwaitingSave →
    details.claimsPassword = false → knows (.sent op (.createProfile details)) none none
  updates : ∀ (id : ι) fields password (op : PendingOp ι δ) command profile credential,
    Opens id fields password op command → terms.mayUpdate fields password profile credential →
    knows .settled profile credential → knows (.sent op command) profile credential
  deletes : ∀ (id : ι) (op : PendingOp ι δ) profile credential, op.step = .deleteAwaitingCredentialDelete →
    knows .settled profile credential → knows (.sent op (.credentialDelete id)) profile credential
  appears : ∀ (id : ι) (op : PendingOp ι δ) details credential,
    knows (.sent op (.createProfile details)) none none → knows .settled none credential →
    knows (.answered op (.saved id)) (some details) credential
  fails : ∀ (op : PendingOp ι δ) details error,
    knows (.sent op (.createProfile details)) none none → knows (.answered op (.failed error)) none none
  runs : ∀ (id : ι) (op : PendingOp ι δ) command failure profile credential, command.target = some id →
    knows (.sent op command) profile credential →
    (failure.isSome = true → terms.mayFail command profile credential) →
    knows (.answered op (command.run failure id profile credential).1)
      (command.run failure id profile credential).2.1 (command.run failure id profile credential).2.2
  ends : ∀ (op : PendingOp ι δ) answer profile credential, knows (.answered op answer) profile credential →
    op.next answer = none → knows .settled profile credential
  refused : ∀ (op : PendingOp ι δ) answer profile credential, knows (.answered op answer) profile credential →
    terms.mayRefuse profile credential → knows .settled profile credential
  goesOn : ∀ (op later : PendingOp ι δ) answer command profile credential,
    knows (.answered op answer) profile credential → op.next answer = some (later,.ok command) →
    knows (.sent later command) profile credential

end

theorem build_claims (built : fields.build = some details) : details.claimsPassword = wantsStored fields := by
  obtain ⟨authKind,username,passwordStorage,rest⟩ := fields
  cases authKind <;> cases passwordStorage <;> simp_all [ProfileFields.build] <;> subst built <;> rfl

theorem submitted_ok (sub : submitted command refusal = .ok accepted) : command = .ok accepted := by
  cases command <;> cases refusal <;> simp_all [submitted]

theorem createCommand_ok (made : createCommand fields = .ok command) :
    ∃ details, fields.build = some details ∧ command = .createProfile details := by
  unfold createCommand at made
  cases built : fields.build <;> simp_all

theorem updateCommand_ok {id : ι} (made : updateCommand id fields = .ok command) :
    ∃ details, fields.build = some details ∧ command = .updateProfile id details := by
  unfold updateCommand at made
  cases built : fields.build <;> simp_all

theorem start_books (op : PendingOp ι δ) (submission : Except ReplyError (Command ι δ))
    (failed : String → Signal ι) (w : World ι δ) :
    (w.start op submission failed).2.toBooks = w.skip ∨ ∃ command, submission = .ok command ∧
      (w.start op submission failed).2.toBooks = (w.queue command).insert w.nextRequestId op := by
  cases submission with
  | error => exact .inl rfl
  | ok command => exact .inr ⟨command,rfl,rfl⟩

theorem next_fits [Inhabited ι] {op later : PendingOp ι δ} (gets : op.Gets answer)
    (next : op.next answer = some (later,command)) :
    later.profileId = op.subject answer ∧
    ∀ sent, command = .ok sent → later.Fits sent ∧ sent.target = op.subject answer := by
  have subject : op.step ≠ .createAwaitingSave → op.profileId = some op.id ∧ op.subject answer = some op.id := by
    intro later
    cases target : op.profileId with
    | none => exact absurd target (gets.named later)
    | some id => simp [PendingOp.subject,PendingOp.id,target]
  have coherent := gets.coherent
  unfold PendingOp.next at next
  cases step : op.step <;> simp only [step,Step.kind] at next coherent
  case createAwaitingSave =>
    split_ifs at next with wanted
    obtain ⟨rfl,rfl⟩ := Prod.mk.inj (some.inj next)
    obtain ⟨none,saved⟩ := gets.created step
    have named : op.subject answer = some answer.id := by
      obtain ⟨id,saved⟩ := ne_none_iff_exists'.mp (saved.resolve_left (not_not_intro wanted.1))
      simp [PendingOp.subject,none,Answer.id,saved]
    rw [named]
    refine ⟨rfl,fun sent eq => ?_⟩
    cases eq
    exact ⟨⟨coherent,rfl,by simp [PendingOp.awaiting,Command.target]⟩,rfl⟩
  all_goals
    obtain ⟨target,named⟩ := subject (by simp [step])
    rw [named]
  case createAwaitingCredentialPut =>
    split_ifs at next with stored
    obtain ⟨rfl,rfl⟩ := Prod.mk.inj (some.inj next)
    refine ⟨target,fun sent eq => ?_⟩
    obtain ⟨details,_,rfl⟩ := updateCommand_ok eq
    exact ⟨⟨coherent,target,by simp [PendingOp.awaiting,Command.target]⟩,rfl⟩
  case updateAwaitingCredentialPut | updateAwaitingCredentialDelete =>
    obtain ⟨rfl,rfl⟩ := Prod.mk.inj (some.inj next)
    refine ⟨target,fun sent eq => ?_⟩
    obtain ⟨details,_,rfl⟩ := updateCommand_ok eq
    exact ⟨⟨coherent,target,by simp [PendingOp.awaiting,Command.target]⟩,rfl⟩
  case deleteAwaitingCredentialDelete =>
    obtain ⟨rfl,rfl⟩ := Prod.mk.inj (some.inj next)
    refine ⟨target,fun sent eq => ?_⟩
    cases eq
    exact ⟨⟨coherent,target,by simp [PendingOp.awaiting,Command.target]⟩,rfl⟩
  all_goals cases next

inductive Goes (op : PendingOp ι δ) (answer : Answer ι) (later : PendingOp ι δ) : Command ι δ → Prop where
  | stores {id : ι} {password : String} (created : op.step = .createAwaitingSave) (done : answer.error = none)
      (step : later.step = .createAwaitingCredentialPut) : Goes op answer later (.credentialPut id password)
  | claims {id : ι} {details : StoredProfile δ} (stored : op.step = .createAwaitingCredentialPut)
      (done : answer.error = none) (step : later.step = .createAwaitingFlagUpdate) :
    Goes op answer later (.updateProfile id details)
  | replaces {id : ι} {details : StoredProfile δ} (stored : op.step = .updateAwaitingCredentialPut)
      (done : details.claimsPassword = true → answer.error = none) (step : later.step = .updateAwaitingSave) :
    Goes op answer later (.updateProfile id details)
  | prompts {id : ι} {details : StoredProfile δ} (cleared : op.step = .updateAwaitingCredentialDelete)
      (unclaimed : details.claimsPassword = false) (step : later.step = .updateAwaitingSave) :
    Goes op answer later (.updateProfile id details)
  | deletes {id : ι} (cleared : op.step = .deleteAwaitingCredentialDelete)
      (step : later.step = .deleteAwaitingDelete) : Goes op answer later (.deleteProfile id)

theorem next_goes [Inhabited ι] {op later : PendingOp ι δ}
    (next : op.next answer = some (later,.ok command)) : Goes op answer later command := by
  unfold PendingOp.next at next
  cases step : op.step <;> simp only [step] at next
  case createAwaitingSave =>
    split_ifs at next with wanted
    obtain ⟨rfl,eq⟩ := Prod.mk.inj (some.inj next)
    cases eq
    exact .stores step wanted.1 rfl
  case createAwaitingCredentialPut =>
    split_ifs at next with done
    obtain ⟨rfl,made⟩ := Prod.mk.inj (some.inj next)
    obtain ⟨details,_,rfl⟩ := updateCommand_ok made
    exact .claims step done rfl
  case updateAwaitingCredentialPut =>
    obtain ⟨rfl,made⟩ := Prod.mk.inj (some.inj next)
    obtain ⟨details,built,rfl⟩ := updateCommand_ok made
    refine .replaces step (fun claims => ?_) rfl
    rw [build_claims built] at claims
    cases error : answer.error with
    | none => rfl
    | some => simp [wantsStored,PendingOp.claiming,error] at claims
  case updateAwaitingCredentialDelete =>
    obtain ⟨rfl,made⟩ := Prod.mk.inj (some.inj next)
    obtain ⟨details,built,rfl⟩ := updateCommand_ok made
    exact .prompts step (by simp [build_claims built,wantsStored,PendingOp.claiming]) rfl
  case deleteAwaitingCredentialDelete =>
    obtain ⟨rfl,eq⟩ := Prod.mk.inj (some.inj next)
    cases eq
    exact .deletes step rfl
  all_goals cases next

theorem run_gets {op : PendingOp ι δ} (fits : op.Fits command)
    (failure : Option ReplyError) {id : ι} (named : ∀ other, command.target = some other → other = id)
    (profile : Option (StoredProfile δ)) (credential : Option String) :
    op.Gets (command.run failure id profile credential).1 ∧
    ∀ other, (command.run failure id profile credential).1.savedId = some other → other = id := by
  have saves : ∀ other, (command.run failure id profile credential).1.savedId = some other → other = id := by
    intro other saved
    unfold Command.run at saved
    cases failure <;> cases command <;> cases profile <;> simp_all [Answer.savedId]
  refine ⟨⟨fits.coherent,fun other saved => ?_,fun creating => ?_,fun later none => ?_⟩,saves⟩
  · cases target : command.target with
    | none => simpa [PendingOp.subject,fits.target,target] using saved
    | some first => simp [PendingOp.subject,fits.target,target,named first target,saves other saved]
  · have untargeted := fits.creating.mp creating
    refine ⟨fits.target.trans untargeted,?_⟩
    cases command with
    | createProfile => cases failure <;> cases profile <;> simp [Command.run,Answer.error,Answer.savedId]
    | updateProfile | deleteProfile | credentialPut | credentialDelete => cases untargeted
  · exact later (fits.creating.mpr (fits.target.symm.trans none))

theorem updateProfile_opens (id : ι) (fields : ProfileFields δ) (password : String) (refusal : Option ReplyError)
    (w : World ι δ) :
    (updateProfile id fields password refusal w).2.toBooks = w.skip ∨ ∃ op command,
      Opens id fields password op command ∧ op.Fits command ∧ command.target = some id ∧
      (updateProfile id fields password refusal w).2.toBooks = (w.queue command).insert w.nextRequestId op := by
  unfold updateProfile
  dsimp only
  split_ifs with stores clears
  · refine (start_books _ _ _ w).imp_right ?_
    rintro ⟨command,accepted,books⟩
    cases submitted_ok accepted
    exact ⟨_,_,.puts stores.1 stores.2 rfl,⟨rfl,rfl,by simp [PendingOp.awaiting,Command.target]⟩,rfl,books⟩
  · refine (start_books _ _ _ w).imp_right ?_
    rintro ⟨command,accepted,books⟩
    cases submitted_ok accepted
    exact ⟨_,_,.clears clears.1 rfl,⟨rfl,rfl,by simp [PendingOp.awaiting,Command.target]⟩,rfl,books⟩
  · refine (start_books _ _ _ w).imp_right ?_
    rintro ⟨command,accepted,books⟩
    obtain ⟨details,built,rfl⟩ := updateCommand_ok (submitted_ok accepted)
    have untyped : wantsStored fields = true → password = "" := fun wanted =>
      not_not.mp fun typed => stores ⟨wanted,typed⟩
    exact ⟨_,_,.saves untyped built rfl,⟨rfl,rfl,by simp [Command.target]⟩,rfl,books⟩

variable [Inhabited ι] {terms : Terms ι δ} {knows : Knowledge ι δ} {w : World ι δ} (upheld : Upheld terms knows)
  (tracked : Tracked knows none w.toBooks)
include upheld tracked

theorem Tracked.createProfile (fields : ProfileFields δ) (password : String) (refusal : Option ReplyError) :
    Tracked knows none (Connections.createProfile fields password refusal w).2.toBooks := by
  unfold Connections.createProfile
  rcases start_books _ _ _ w with books | ⟨command,accepted,books⟩
  · rw [books]
    exact tracked.skip
  · rw [books]
    obtain ⟨details,built,rfl⟩ := createCommand_ok (submitted_ok accepted)
    have unclaimed : details.claimsPassword = false := by simp [build_claims built,wantsStored]
    exact tracked.begins rfl ⟨rfl,rfl,by simp [Command.target]⟩ (by simp [Command.target])
      (upheld.creates _ details rfl unclaimed)

theorem Tracked.updateProfile {id : ι} (idle : ¬w.Busy id) (fields : ProfileFields δ) (password : String)
    (may : terms.mayUpdate fields password (w.profile id) (w.credential id)) (refusal : Option ReplyError) :
    Tracked knows none (Connections.updateProfile id fields password refusal w).2.toBooks := by
  rcases updateProfile_opens id fields password refusal w with books | ⟨op,command,opens,fits,target,books⟩
  · rw [books]
    exact tracked.skip
  · rw [books]
    refine (tracked.loosen (some id)).begins target.symm fits (fun other named => ?_) ?_
    · obtain rfl := some.inj (target.symm.trans named)
      exact idle
    · rw [target]
      exact upheld.updates id fields password op command _ _ opens may (tracked.settled id (by simp) idle)

theorem Tracked.deleteProfile [Inhabited δ] {id : ι} (idle : ¬w.Busy id) (refusal : Option ReplyError) :
    Tracked knows none (Connections.deleteProfile id refusal w).2.toBooks := by
  unfold Connections.deleteProfile
  rcases start_books _ _ _ w with books | ⟨command,accepted,books⟩
  · rw [books]
    exact tracked.skip
  · rw [books]
    cases submitted_ok accepted
    refine (tracked.loosen (some id)).begins rfl ⟨rfl,rfl,by simp [Command.target]⟩ (fun other named => ?_) ?_
    · obtain rfl := some.inj named
      exact idle
    · exact upheld.deletes id _ _ _ rfl (tracked.settled id (by simp) idle)

variable [DecidableEq ι]

theorem Tracked.serve (failure : Option ReplyError) (drawn : ι) (allowed : terms.Allow w (.serve failure drawn)) :
    Tracked knows none (Connections.serve failure drawn w).toBooks := by
  unfold Connections.serve
  split
  · exact tracked
  · next head => exact tracked.lists head _
  next request command rest head =>
    obtain ⟨free,may⟩ := allowed request command rest head
    have member : (request,Job.change command) ∈ w.commands := by simp [head]
    obtain ⟨op,pending,fits,known⟩ := tracked.sent request command member
    have named : ∀ other, command.target = some other → other = command.target.getD drawn := by
      intro other target
      simp [target]
    obtain ⟨gets,saves⟩ := run_gets fits failure named (w.profile (command.target.getD drawn))
      (w.credential (command.target.getD drawn))
    refine tracked.serves head pending (fun other concerns => ?_) named saves gets ?_
    · cases target : command.target with
      | none => exact absurd ⟨other,by simpa [target] using concerns⟩ (free target)
      | some id =>
        have mine := (tracked.sent_concerns_iff member id).mpr target
        exact tracked.apart other request id (by simpa [target] using concerns) mine
    · cases target : command.target with
      | some id =>
        rw [target] at known
        exact .inl ⟨by simp [PendingOp.subject,fits.target,target],
          upheld.runs id op command failure _ _ target known fun fails => may fails id target⟩
      | none =>
        cases command with
        | updateProfile | deleteProfile | credentialPut | credentialDelete => cases target
        | createProfile details =>
          have unnamed : op.profileId = none := fits.target
          cases failure with
          | some error => exact .inr ⟨by simp [PendingOp.subject,unnamed,Command.run,Answer.savedId],rfl,rfl,
              upheld.fails op details error known⟩
          | none =>
            have settled := tracked.settled drawn (by simp) (free target)
            cases there : w.profile drawn with
            | some old =>
              refine .inr ⟨?_,?_,?_,?_⟩
              · simp [PendingOp.subject,unnamed,Command.run,there,Answer.savedId]
              · simp [Command.run,there]
              · simp [Command.run,there]
              · simpa [Command.run,there] using upheld.fails op details _ known
            | none =>
              rw [there] at settled
              refine .inl ⟨?_,?_⟩
              · simp [PendingOp.subject,unnamed,Command.run,there,Answer.savedId]
              · simpa [Command.run,there] using upheld.appears drawn op details _ known settled

theorem Tracked.handle (refusal : Option ReplyError) (allowed : terms.Allow w (.handle refusal)) :
    Tracked knows none (Connections.handle refusal w).toBooks := by
  unfold Connections.handle
  split
  · exact tracked
  next request reply rest head =>
    cases reply with
    | listed rows => cases rows <;> exact tracked.drop head
    | answer answer =>
      have member : (request,Reply.answer answer) ∈ w.replies := by simp [head]
      obtain ⟨op,pending,gets,known⟩ := tracked.answered request answer member
      obtain ⟨released,idle⟩ := tracked.release head pending
      have at_subject : ∀ id, op.subject answer = some id →
          knows (.answered op answer) (w.profile id) (w.credential id) := fun id subject => by
        rw [subject] at known
        exact known
      have here : ({ w with replies := rest } : World ι δ).pending request = some op := pending
      rw [handleReply_books here gets.coherent]
      unfold Books.carryOn
      cases next : op.next answer with
      | none => exact released.settle fun id subject => upheld.ends op answer _ _ (at_subject id subject) next
      | some later =>
        obtain ⟨later,command⟩ := later
        obtain ⟨named,fits⟩ := next_fits gets next
        cases sub : submitted command refusal with
        | error error =>
          simp only [sub,Books.followed]
          refine Tracked.skip (released.settle fun id subject => ?_)
          exact upheld.refused op answer _ _ (at_subject id subject)
            (allowed request answer rest op later command error head pending next sub id (named.trans subject))
        | ok sent =>
          simp only [sub,Books.followed]
          obtain rfl := submitted_ok sub
          obtain ⟨fits,target⟩ := fits sent rfl
          refine released.begins target.symm fits (fun id named => idle id (target.symm.trans named)) ?_
          rw [target]
          exact upheld.goesOn op later answer sent _ _ known next

theorem Tracked.step [Inhabited δ]
    (move : Move ι δ) (allowed : terms.Allow w move) : Tracked knows none (move.perform w).toBooks := by
  cases move with
  | createProfile fields password refusal => exact tracked.createProfile upheld fields password refusal
  | updateProfile id fields password refusal =>
    exact tracked.updateProfile upheld allowed.1 fields password allowed.2 refusal
  | deleteProfile id refusal => exact tracked.deleteProfile upheld allowed refusal
  | serve failure drawn => exact tracked.serve upheld failure drawn allowed
  | handle refusal => exact tracked.handle upheld refusal allowed

end Reldex.Connections
