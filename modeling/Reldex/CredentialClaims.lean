import Reldex.ConnectionBooks

/-! What the two stores say of each other when no operation is pending: a profile that claims a
stored password has an entry, and an entry has a profile. Both hold of operations that run one
after the other on each profile, on terms that differ; both fail without them. -/
namespace Reldex.Connections
open Relation
variable {ι δ : Type}

/-- The workspace of a manager that is ready, with the list of profiles perhaps on its way. -/
structure World.Opened (w : World ι δ) : Prop where
  idle : ∀ request, w.pending request = none
  commands : ∀ request command, (request,Job.change command) ∉ w.commands
  replies : ∀ request answer, (request,Reply.answer answer) ∉ w.replies
  once : w.inFlight.Nodup
  known : ∀ request ∈ w.inFlight, request < w.nextRequestId

theorem World.Opened.tracked {w : World ι δ} (opened : w.Opened)
    (settled : ∀ id, knows .settled (w.profile id) (w.credential id)) : Tracked knows none w.toBooks where
  known := opened.known
  once := opened.once
  older request op pending := by simp [opened.idle] at pending
  apart first _ id one := by
    obtain ⟨op,pending,_⟩ := one
    simp [opened.idle] at pending
  settled id _ _ := settled id
  sent request command waits := absurd waits (opened.commands request command)
  answered request answer waits := absurd waits (opened.replies request answer)

theorem World.Opened.idle_not_busy {w : World ι δ} (opened : w.Opened) (id : ι) : ¬w.Busy id := by
  rintro ⟨request,op,pending,_⟩
  simp [opened.idle] at pending

section
variable [DecidableEq ι] [Inhabited ι] [Inhabited δ]

def Orderly (terms : Terms ι δ) (w next : World ι δ) : Prop := ∃ move, terms.Allow w move ∧ next = move.perform w

theorem Tracked.run {w final : World ι δ} (upheld : Upheld terms knows)
    (run : ReflTransGen (Orderly terms) w final) (tracked : Tracked knows none w.toBooks) :
    Tracked knows none final.toBooks := by
  induction run with
  | refl => exact tracked
  | tail _ step ih =>
    obtain ⟨move,allowed,rfl⟩ := step
    exact ih.step upheld move allowed

omit [DecidableEq ι] [Inhabited ι] [Inhabited δ] in
theorem Tracked.idle {w : World ι δ} (tracked : Tracked knows none w.toBooks)
    (idle : ∀ request, w.pending request = none) (id : ι) : knows .settled (w.profile id) (w.credential id) := by
  refine tracked.settled id (by simp) ?_
  rintro ⟨request,op,pending,_⟩
  simp [idle] at pending

end

def single (storage : PasswordStorage) (credential : Option String) : World Nat Unit where
  pending _ := none
  nextRequestId := 1
  commands := []
  replies := []
  profile id := if id = 1 then some ⟨.password "scott" storage,()⟩ else none
  credential id := if id = 1 then credential else none
  rows id := if id = 1 then some (StoredProfile.view ⟨.password "scott" storage,()⟩) else none
  signals := []

theorem single_opened (storage : PasswordStorage) (credential : Option String) :
    (single storage credential).Opened := by
  constructor <;> simp [single,Books.inFlight]

def asking (storage : PasswordStorageKind) : ProfileFields Unit := ⟨.password,"scott",storage,()⟩

def performAll (moves : List (Move Nat Unit)) (w : World Nat Unit) : World Nat Unit :=
  moves.foldl (fun w move => move.perform w) w

theorem allow_serve {terms : Terms ι δ} [Inhabited ι]
    (named : ∀ request command rest, w.commands = (request,.change command) :: rest → command.target ≠ none)
    (drawn : ι) : terms.Allow w (.serve none drawn) := by
  intro request command rest head
  refine ⟨fun unnamed => absurd unnamed (named request command rest head),fun fails => ?_⟩
  cases fails

def locked : ReplyError := ⟨.other,none⟩

def storing : List (Move Nat Unit) :=
  [.updateProfile 1 (asking .credentialStore) "tiger" none,.serve none 0,.handle none,.serve none 0,.handle none]

theorem storing_run {terms : Terms Nat Unit}
    (may : terms.mayUpdate (asking .credentialStore) "tiger" (some ⟨.password "scott" .promptEachTime,()⟩) none) :
    ReflTransGen (Orderly terms) (single .promptEachTime none) (performAll storing (single .promptEachTime none)) := by
  have calls : terms.Allow (single .promptEachTime none) (.updateProfile 1 (asking .credentialStore) "tiger" none) :=
    ⟨(single_opened _ _).idle_not_busy 1,may⟩
  refine .head ⟨_,calls,rfl⟩ (.head ⟨.serve none 0,?_,rfl⟩ (.head ⟨.handle none,?_,rfl⟩
    (.head ⟨.serve none 0,?_,rfl⟩ (.single ⟨.handle none,?_,rfl⟩))))
  · refine allow_serve ?_ 0
    rintro request command rest head
    cases head
    exact Option.some_ne_none _
  · rintro request answer rest op later command error head pending next refused
    cases head
    cases pending
    cases next
    cases refused
  · refine allow_serve ?_ 0
    rintro request command rest head
    cases head
    exact Option.some_ne_none _
  · rintro request answer rest op later command error head pending next refused
    cases head
    cases pending
    cases next

def Held (profile : Option (StoredProfile δ)) (credential : Option String) : Prop :=
  profile.any StoredProfile.claimsPassword = true → credential.isSome = true

def Command.writesProfile : Command ι δ → Bool
  | .updateProfile _ _ | .deleteProfile _ => true
  | _ => false

/-- An update that asks for a stored password and brings none is for a profile that has one, and no
write of a profile fails or is refused while the profile claims a password that is gone. -/
def claimTerms : Terms ι δ where
  mayUpdate fields password _ credential := wantsStored fields = true → password = "" → credential.isSome = true
  mayFail command profile credential := command.writesProfile = true → Held profile credential
  mayRefuse := Held

/-- A new password is known to be stored before the profile claims it; an entry that is cleared is
not missed until the profile has been written. -/
def claimKnown : Knowledge ι δ
  | .settled,profile,credential => Held profile credential
  | .sent op command,profile,credential =>
    match op.step,command with
    | .createAwaitingSave,.createProfile details => details.claimsPassword = false
    | .createAwaitingCredentialPut,.credentialPut _ _ | .updateAwaitingCredentialPut,.credentialPut _ _ =>
      Held profile credential
    | .createAwaitingFlagUpdate,.updateProfile _ _ => credential.isSome = true
    | .updateAwaitingSave,.updateProfile _ details => details.claimsPassword = true → credential.isSome = true
    | .updateAwaitingCredentialDelete,.credentialDelete _ | .deleteAwaitingCredentialDelete,.credentialDelete _
    | .deleteAwaitingDelete,.deleteProfile _ => True
    | _,_ => False
  | .answered op answer,profile,credential =>
    match op.step with
    | .createAwaitingCredentialPut | .updateAwaitingCredentialPut =>
      Held profile credential ∧ (answer.error = none → credential.isSome = true)
    | .updateAwaitingCredentialDelete | .deleteAwaitingCredentialDelete => True
    | .createAwaitingSave | .createAwaitingFlagUpdate | .updateAwaitingSave | .deleteAwaitingDelete =>
      Held profile credential

theorem claimKnown_upheld [Inhabited ι] : Upheld (claimTerms : Terms ι δ) claimKnown where
  creates op details step unclaimed := by simpa [claimKnown,step] using unclaimed
  updates id fields password op command profile credential opens may held := by
    cases opens with
    | puts wanted typed step => simpa [claimKnown,step] using held
    | clears unwanted step => simp [claimKnown,step]
    | saves untyped built step =>
      simp only [claimKnown,step]
      intro claims
      have wanted := build_claims built ▸ claims
      exact may wanted (untyped wanted)
  deletes id op profile credential step _ := by simp [claimKnown,step]
  appears id op details credential known _ := by
    cases step : op.step <;> simp_all [claimKnown,Held]
  fails op details error known := by
    cases step : op.step <;> simp_all [claimKnown,Held]
  runs id op command failure profile credential target known may := by
    cases step : op.step <;> cases command <;> simp only [claimKnown,step] at known <;>
      cases failure <;> cases profile <;> simp_all [claimKnown,claimTerms,Command.run,Held,Answer.error,
        Command.writesProfile,Command.target]
  ends op answer profile credential known next := by
    cases step : op.step <;> simp_all [claimKnown,PendingOp.next]
  refused op answer profile credential _ held := held
  goesOn op later answer command profile credential known next := by
    cases next_goes next with
    | stores created done step =>
      simp only [claimKnown,created] at known
      simpa [claimKnown,step] using known
    | claims stored done step =>
      simp only [claimKnown,stored] at known
      simpa [claimKnown,step] using known.2 done
    | replaces stored done step =>
      simp only [claimKnown,stored] at known
      simpa [claimKnown,step] using fun claims => known.2 (done claims)
    | prompts cleared unclaimed step => simp [claimKnown,step,unclaimed]
    | deletes cleared step => simp [claimKnown,step]

/-- When no operation is pending, every profile that claims a stored password has an entry, if the
operations on a profile ran one after the other and on those terms. -/
theorem claimed_passwords_are_stored [DecidableEq ι] [Inhabited ι] [Inhabited δ] {w final : World ι δ}
    (opened : w.Opened) (held : ∀ id, Held (w.profile id) (w.credential id))
    (run : ReflTransGen (Orderly claimTerms) w final) (idle : ∀ request, final.pending request = none)
    (id : ι) : Held (final.profile id) (final.credential id) :=
  (Tracked.run claimKnown_upheld run (opened.tracked held)).idle idle id

theorem stored_password_is_claimed : Held ((performAll storing (single .promptEachTime none)).profile 1)
      ((performAll storing (single .promptEachTime none)).credential 1) ∧
    ((performAll storing (single .promptEachTime none)).profile 1).any StoredProfile.claimsPassword = true :=
  ⟨claimed_passwords_are_stored (single_opened _ _)
    (fun id => by by_cases first : id = 1 <;> simp [single,Held,first,StoredProfile.claimsPassword])
    (storing_run fun _ empty => absurd empty (by decide))
    (fun request => by rcases request with _ | _ | _ | _ <;> rfl) 1,rfl⟩

/-- A save that asks for a stored password without bringing one claims a password that was never
stored. So does a profile whose entry was cleared when the write that should have followed fails. -/
theorem password_claimed_without_entry :
    (single .promptEachTime none).Opened ∧ (single .credentialStore (some "tiger")).Opened ∧
    (∀ id, Held ((single .promptEachTime none).profile id) ((single .promptEachTime none).credential id)) ∧
    (∀ id, Held ((single .credentialStore (some "tiger")).profile id)
      ((single .credentialStore (some "tiger")).credential id)) ∧
    let saved := performAll [.updateProfile 1 (asking .credentialStore) "" none,.serve none 0,.handle none]
      (single .promptEachTime none)
    let prompted := performAll [.updateProfile 1 (asking .promptEachTime) "" none,.serve none 0,.handle none,
      .serve (some locked) 0,.handle none] (single .credentialStore (some "tiger"))
    let deleted := performAll [.deleteProfile 1 none,.serve none 0,.handle none,.serve (some locked) 0,.handle none]
      (single .credentialStore (some "tiger"))
    ∀ w ∈ [saved,prompted,deleted], (∀ request, w.pending request = none) ∧
      (w.profile 1).any StoredProfile.claimsPassword = true ∧ w.credential 1 = none := by
  refine ⟨single_opened _ _,single_opened _ _,?_,?_,?_⟩
  · intro id
    by_cases first : id = 1 <;> simp [single,Held,first,StoredProfile.claimsPassword]
  · intro id
    by_cases first : id = 1 <;> simp [single,Held,first]
  · intro saved prompted deleted w member
    simp only [List.mem_cons,List.not_mem_nil,or_false] at member
    rcases member with rfl | rfl | rfl
    · exact ⟨fun request => by rcases request with _ | _ | _ <;> rfl,rfl,rfl⟩
    · exact ⟨fun request => by rcases request with _ | _ | _ | _ <;> rfl,rfl,rfl⟩
    · exact ⟨fun request => by rcases request with _ | _ | _ | _ <;> rfl,rfl,rfl⟩

def Owned (profile : Option (StoredProfile δ)) (credential : Option String) : Prop :=
  credential.isSome = true → profile.isSome = true

def Command.callsCredentials : Command ι δ → Bool
  | .credentialPut _ _ | .credentialDelete _ => true
  | _ => false

/-- Only a profile that exists is updated, and no call of the credential store fails. -/
def entryTerms : Terms ι δ where
  mayUpdate _ _ profile _ := profile.isSome = true
  mayFail command _ _ := command.callsCredentials = false
  mayRefuse _ _ := True

/-- A profile is there while it is created or updated; its entry is gone before it is deleted. -/
def entryKnown : Knowledge ι δ
  | .settled,profile,credential => Owned profile credential
  | .sent op command,profile,credential =>
    match op.step,command with
    | .createAwaitingSave,.createProfile _ | .deleteAwaitingCredentialDelete,.credentialDelete _ => True
    | .createAwaitingCredentialPut,.credentialPut _ _ | .createAwaitingFlagUpdate,.updateProfile _ _
    | .updateAwaitingCredentialPut,.credentialPut _ _ | .updateAwaitingCredentialDelete,.credentialDelete _
    | .updateAwaitingSave,.updateProfile _ _ => profile.isSome = true
    | .deleteAwaitingDelete,.deleteProfile _ => credential = none
    | _,_ => False
  | .answered op answer,profile,credential =>
    match op.step with
    | .createAwaitingSave => Owned profile credential ∧ (answer.error = none → profile.isSome = true)
    | .createAwaitingCredentialPut | .createAwaitingFlagUpdate | .updateAwaitingCredentialPut
    | .updateAwaitingCredentialDelete | .updateAwaitingSave => profile.isSome = true
    | .deleteAwaitingCredentialDelete => credential = none
    | .deleteAwaitingDelete => Owned profile credential

theorem entryKnown_settles (known : entryKnown (.answered op answer) profile credential) :
    Owned profile credential := by
  cases step : op.step <;> simp_all [entryKnown,Owned]

theorem entryKnown_upheld [Inhabited ι] : Upheld (entryTerms : Terms ι δ) entryKnown where
  creates op details step _ := by simp [entryKnown,step]
  updates id fields password op command profile credential opens present _ := by
    cases opens with
    | puts _ _ step | clears _ step | saves _ _ step =>
      simp only [entryKnown,step]
      exact present
  deletes id op profile credential step _ := by simp [entryKnown,step]
  appears id op details credential known _ := by
    cases step : op.step <;> simp_all [entryKnown,Owned]
  fails op details error known := by
    cases step : op.step <;> simp_all [entryKnown,Owned,Answer.error]
  runs id op command failure profile credential target known may := by
    cases step : op.step <;> cases command <;> simp only [entryKnown,step] at known <;>
      cases failure <;> cases profile <;> simp_all [entryKnown,entryTerms,Command.run,Owned,
        Command.callsCredentials,Command.target]
  ends op answer profile credential known _ := entryKnown_settles known
  refused op answer profile credential known _ := entryKnown_settles known
  goesOn op later answer command profile credential known next := by
    cases next_goes next with
    | stores created done step =>
      simp only [entryKnown,created] at known
      simpa [entryKnown,step] using known.2 done
    | claims before _ step | replaces before _ step | prompts before _ step | deletes before step =>
      simp only [entryKnown,before] at known
      simpa [entryKnown,step] using known

/-- When no operation is pending, every entry of the credential store has a profile, if the
operations on a profile ran one after the other and on those terms. -/
theorem entries_have_profiles [DecidableEq ι] [Inhabited ι] [Inhabited δ] {w final : World ι δ}
    (opened : w.Opened) (owned : ∀ id, Owned (w.profile id) (w.credential id))
    (run : ReflTransGen (Orderly entryTerms) w final) (idle : ∀ request, final.pending request = none)
    (id : ι) : Owned (final.profile id) (final.credential id) :=
  (Tracked.run entryKnown_upheld run (opened.tracked owned)).idle idle id

theorem storing_keeps_profile : Owned ((performAll storing (single .promptEachTime none)).profile 1)
      ((performAll storing (single .promptEachTime none)).credential 1) ∧
    (performAll storing (single .promptEachTime none)).credential 1 = some "tiger" :=
  ⟨entries_have_profiles (single_opened _ _) (fun id => by simp [single,Owned])
    (storing_run rfl)
    (fun request => by rcases request with _ | _ | _ | _ <;> rfl) 1,rfl⟩

def storingWhileDeleting : List (Move Nat Unit) :=
  [.deleteProfile 1 none,.serve none 0,.handle none,.updateProfile 1 (asking .credentialStore) "lion" none,
    .serve none 0,.serve none 0,.handle none,.handle none,.serve none 0,.handle none]

/-- Every call and every command succeeds but the last write of a profile that is gone, and yet the
entry stays. -/
theorem entry_outlives_profile : (single .credentialStore (some "tiger")).Opened ∧
    (∀ id, Owned ((single .credentialStore (some "tiger")).profile id)
      ((single .credentialStore (some "tiger")).credential id)) ∧
    let final := performAll storingWhileDeleting (single .credentialStore (some "tiger"))
    (∀ request, final.pending request = none) ∧ final.profile 1 = none ∧ final.credential 1 = some "lion" := by
  refine ⟨single_opened _ _,fun id => ?_,fun request => ?_,rfl,rfl⟩
  · by_cases first : id = 1 <;> simp [single,Owned,first]
  · rcases request with _ | _ | _ | _ | _ | _ <;> rfl

end Reldex.Connections
