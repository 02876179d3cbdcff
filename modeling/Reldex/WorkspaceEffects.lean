import Reldex.WorkspaceStore

/-! What the operations of the workspace store do. An operation either fails and changes nothing
or has the effect of its statements, one after the other; everything known about runs of the
store is proved from that. -/
namespace Reldex.Workspace
open Transaction

section

inductive Op (codec : ProfileCodec) where
  | insertProfile (profile : Profile codec)
  | updateProfile (profile : Profile codec)
  | deleteProfile (profile : ProfileId)
  | putSettingValue (now : Int) (scope : Scope) (id : SettingId) (value : SettingValue)
  | clearSetting (scope : Scope) (id : SettingId)
  | clearWorksheetSettings (worksheet : WorksheetId)
  | saveWorksheet (worksheet : Worksheet)
  | deleteWorksheet (worksheet : WorksheetId)
  | saveLayout (now : Int) (layout : Layout)
  | recordHistory (entry : HistoryEntry)
  | clearHistory (profile : ProfileId)

inductive Reply where
  | done
  | existed (found : Bool)
  | removed (rows : Nat)
  | recorded (id : Nat)
  deriving DecidableEq

variable {codec : ProfileCodec} (mobile : Bool)

def Operation.replying (operation : Operation codec α) (reply : α → Reply) : Operation codec Reply := fun faults db =>
  ((operation faults db).1.map reply,(operation faults db).2)

def Op.run : Op codec → Operation codec Reply
  | .insertProfile profile => (Workspace.insertProfile profile).replying fun _ => .done
  | .updateProfile profile => (Workspace.updateProfile profile).replying fun _ => .done
  | .deleteProfile profile => (Workspace.deleteProfile profile).replying .existed
  | .putSettingValue now scope id value => (Workspace.putSettingValue mobile now scope id value).replying fun _ => .done
  | .clearSetting scope id => (Workspace.clearSetting mobile scope id).replying .existed
  | .clearWorksheetSettings worksheet => (Workspace.clearWorksheetSettings worksheet).replying .removed
  | .saveWorksheet worksheet => (Workspace.saveWorksheet worksheet).replying fun _ => .done
  | .deleteWorksheet worksheet => (Workspace.deleteWorksheet worksheet).replying .existed
  | .saveLayout now layout => (Workspace.saveLayout now layout).replying fun _ => .done
  | .recordHistory entry => (Workspace.recordHistory mobile entry).replying .recorded
  | .clearHistory profile => (Workspace.clearHistory profile).replying .removed

/-- An operation, with the failures SQLite reports during it. -/
abbrev Attempt (codec : ProfileCodec) := Op codec × List (Option (Failure codec))

def Attempt.run (attempt : Attempt codec) (db : Db codec) : Except (Failure codec) Reply × Db codec :=
  attempt.1.run mobile attempt.2 db

def after (attempts : List (Attempt codec)) : Db codec :=
  attempts.foldl (fun db attempt => (attempt.run mobile db).2) .empty

theorem after_concat (attempts : List (Attempt codec)) (attempt : Attempt codec) :
    after mobile (attempts ++ [attempt]) = (attempt.run mobile (after mobile attempts)).2 := by
  simp [after]

end

variable {codec : ProfileCodec}

def Db.trim (mobile : Bool) (profile : ProfileId) (count : Int) (db : Db codec) : Db codec :=
  match currentMaxEntries mobile db.setting with
  | none => db
  | some limit =>
    if count > limit.toNat then
      (db.deleteOldest profile (count - limit.toNat).toNat).lessCount profile (count - limit.toNat)
    else db

inductive Effect (mobile : Bool) (db : Db codec) : Op codec → Reply → Db codec → Prop where
  | insertProfile {profile : Profile codec} {row : ProfileRow codec} (valid : encoded profile = .ok row)
      (fresh : db.profile.has row.id = false) : Effect mobile db (.insertProfile profile) .done (db.insertProfile row).2
  | updateProfile {profile : Profile codec} {row : ProfileRow codec} (valid : encoded profile = .ok row)
      (present : db.profile.has row.id = true) : Effect mobile db (.updateProfile profile) .done (db.updateProfile row).2
  | deleteProfile (profile : ProfileId) : Effect mobile db (.deleteProfile profile) (.existed (db.profile.has profile))
      ((db.deleteProfileSettings profile).deleteProfile profile).2
  | putApplication {id : SettingId} {value : SettingValue} (now : Int)
      (valid : (id.descriptor mobile).check .application value = .ok ()) :
      Effect mobile db (.putSettingValue now .application id value) .done
        (db.upsertSetting ⟨storedSetting mobile id value,.application,[],now,unnamed_application⟩)
  | putProfile {profile : ProfileId} {id : SettingId} {value : SettingValue} (now : Int)
      (present : db.profile.has profile = true) :
      Effect mobile db (.putSettingValue now (.profile profile) id value) .done
        (db.upsertSetting ⟨storedSetting mobile id value,.profile,profile.toText,now,unnamed_profile profile⟩)
  | putWorksheet {worksheet : WorksheetId} {id : SettingId} {value : SettingValue} {now : Int} {next : Db codec}
      (ran : db.upsertWorksheetSetting ⟨storedSetting mobile id value,worksheet,now⟩ = .ok ((),next)) :
      Effect mobile db (.putSettingValue now (.worksheet worksheet) id value) .done next
  | clearSetting {scope : Scope} {id : SettingId} (found : Bool) (p : SettingRow → Bool) :
      Effect mobile db (.clearSetting scope id) (.existed found) { db with setting := db.setting.delete p }
  | clearWorksheetSetting {scope : Scope} {id : SettingId} (found : Bool) (p : WorksheetSettingRow → Bool) :
      Effect mobile db (.clearSetting scope id) (.existed found) { db with worksheetSetting := db.worksheetSetting.delete p }
  | clearWorksheetSettings {worksheet : WorksheetId} (rows : Nat) :
      Effect mobile db (.clearWorksheetSettings worksheet) (.removed rows)
        { db with worksheetSetting := db.worksheetSetting.delete (·.worksheet == worksheet) }
  | saveWorksheet {worksheet : Worksheet} {next : Db codec} (ran : db.upsertWorksheet worksheet = .ok ((),next)) :
      Effect mobile db (.saveWorksheet worksheet) .done next
  | deleteWorksheet (worksheet : WorksheetId) : Effect mobile db (.deleteWorksheet worksheet)
      (.existed (db.worksheet.has worksheet)) (db.deleteWorksheet worksheet).2
  | saveLayout {now : Int} {layout : Layout} {next : Db codec} (ran : db.upsertLayout ⟨layout,now⟩ = .ok ((),next)) :
      Effect mobile db (.saveLayout now layout) .done next
  | recordHistory {entry : HistoryEntry} {id : Nat} {count : Int} {grown more : Db codec}
      (inserted : db.insertHistory entry.row = .ok (id,grown)) (counted : grown.countHistory entry.profile = .ok (count,more)) :
      Effect mobile db (.recordHistory entry) (.recorded id) (more.trim mobile entry.profile count)
  | clearHistory (profile : ProfileId) : Effect mobile db (.clearHistory profile) (.removed (db.deleteHistory profile).1)
      ((db.deleteHistory profile).2.deleteHistoryMeta profile)

theorem encoded_id (valid : encoded profile = .ok row) : row.id = profile.id := by
  unfold encoded at valid
  split at valid
  · cases valid
  · cases valid
    rfl

theorem require_ensures (has : Db codec → Bool) (missing : Failure codec) :
    Ensures pre (do if ← query has then pure () else throw missing : Sql codec Unit) fun _ db => pre db ∧ has db = true := by
  refine .bind .query fun found => ?_
  split
  · rename_i present
    exact .pure fun db held => ⟨held.1,held.2 ▸ present⟩
  · exact .throw

theorem requireProfile_ensures (profile : ProfileId) :
    Ensures pre (requireProfile profile) fun _ (db : Db codec) => pre db ∧ db.profile.has profile = true :=
  require_ensures _ _

theorem requireWorksheet_ensures (worksheet : WorksheetId) :
    Ensures pre (requireWorksheet worksheet) fun _ (db : Db codec) => pre db ∧ db.worksheet.has worksheet = true :=
  require_ensures _ _

theorem change_ensures (change : Db codec → α × Db codec) (db : Db codec) :
    Ensures (· = db) (statement fun s => .ok (change s) : Sql codec α) fun value s => (value,s) = change db := by
  refine .statement fun s value next held ran => ?_
  subst held
  exact (Except.ok.inj ran).symm

theorem forM_ensures {found : α → Db codec → Prop}
    (each : ∀ a, Ensures pre (require a) fun _ db => pre db ∧ found a db) (reference : Option α) :
    Ensures pre (reference.forM require) fun _ => pre := by
  cases reference with
  | none => exact .pure fun db held => held
  | some a => exact (each a).weaken (fun _ held => held) (fun _ _ held => held.1) fun _ => id

theorem trimHistory_ensures (mobile : Bool) (profile : ProfileId) (count : Int) (db : Db codec) :
    Ensures (· = db) (trimHistory mobile profile count) fun _ next => next = db.trim mobile profile count := by
  refine .bind .query fun limit => ?_
  unfold Db.trim
  cases limit with
  | none =>
    refine .pure fun s held => ?_
    obtain ⟨rfl,unlimited⟩ := held
    rw [← unlimited]
  | some limit =>
    simp only
    split
    · rename_i above
      have cut : Ensures (fun s => s = db ∧ some limit = currentMaxEntries mobile s.setting)
          (execute (·.deleteOldest profile (count - limit.toNat).toNat) : Sql codec Unit) fun _ s =>
          s = db.deleteOldest profile (count - limit.toNat).toNat ∧ some limit = currentMaxEntries mobile db.setting := by
        refine .execute fun s held => ?_
        obtain ⟨rfl,limited⟩ := held
        exact ⟨rfl,limited⟩
      refine .bind cut fun _ => .execute fun s held => ?_
      obtain ⟨rfl,limited⟩ := held
      rw [← limited]
      exact (if_pos above).symm
    · rename_i within
      refine .pure fun s held => ?_
      obtain ⟨rfl,limited⟩ := held
      rw [← limited]
      exact (if_neg within).symm

theorem recordHistory_ensures (mobile : Bool) (entry : HistoryEntry) (db : Db codec) :
    Ensures (· = db) (do
      requireProfile entry.profile
      let id ← statement (·.insertHistory entry.row)
      let count ← statement (·.countHistory entry.profile)
      trimHistory mobile entry.profile count
      return id : Sql codec Nat) fun id next => Effect mobile db (.recordHistory entry) (.recorded id) next := by
  have inserts : Ensures (fun s => s = db ∧ s.profile.has entry.profile = true)
      (statement (·.insertHistory entry.row) : Sql codec Nat) fun id s => db.insertHistory entry.row = .ok (id,s) :=
    .statement fun s id s' held ran => held.1 ▸ ran
  have counts (id : Nat) : Ensures (fun s => db.insertHistory entry.row = .ok (id,s))
      (statement (·.countHistory entry.profile) : Sql codec Int) fun count s =>
      ∃ grown, db.insertHistory entry.row = .ok (id,grown) ∧ grown.countHistory entry.profile = .ok (count,s) :=
    .statement fun s count s' held ran => ⟨s,held,ran⟩
  refine .bind (requireProfile_ensures _) fun _ => .bind inserts fun id => .bind (counts id) fun count => ?_
  refine .each fun s ⟨grown,inserted,counted⟩ => .bind (trimHistory_ensures mobile _ count s) fun _ => .pure fun next held => ?_
  subst held
  exact .recordHistory inserted counted

/-- An operation that fails changes nothing; one that does not has its effect. -/
def Outcome (mobile : Bool) (db : Db codec) (op : Op codec) (result : Except (Failure codec) Reply × Db codec) : Prop :=
  (∃ failure, result = (.error failure,db)) ∨ ∃ reply next, result = (.ok reply,next) ∧ Effect mobile db op reply next

theorem immediate_outcome (ensures : Ensures (· = db) body fun value next => Effect mobile db op (reply value) next)
    (faults : List (Option (Failure codec))) : Outcome mobile db op (Operation.replying (immediate body) reply faults db) := by
  rcases immediate_cases ensures faults rfl with ⟨failure,ended⟩ | ⟨value,next,ended,effect⟩
  · exact .inl ⟨failure,by rw [Operation.replying,ended]; rfl⟩
  · exact .inr ⟨reply value,next,by rw [Operation.replying,ended]; rfl,effect⟩

theorem checked_outcome {body : α → Sql codec β}
    (ensures : ∀ value, check = .ok value → Ensures (· = db) (body value) fun answer next => Effect mobile db op (reply answer) next)
    (faults : List (Option (Failure codec))) : Outcome mobile db op (Operation.replying (checked check body) reply faults db) := by
  cases passed : check with
  | error failure => exact .inl ⟨failure,rfl⟩
  | ok value =>
    have same : Operation.replying (checked (.ok value) body) reply faults db =
        Operation.replying (immediate (body value)) reply faults db := rfl
    rw [same]
    exact immediate_outcome (ensures value passed) faults

theorem check_of_checkSetting {id : SettingId}
    (valid : (checkSetting mobile level id value : Except (Failure codec) Unit) = .ok ()) :
    (id.descriptor mobile).check level value = .ok () := by
  unfold checkSetting at valid
  split at valid
  · cases valid
  · assumption

theorem Op.run_outcome (mobile : Bool) (op : Op codec) (faults : List (Option (Failure codec))) (db : Db codec) :
    Outcome mobile db op (op.run mobile faults db) := by
  cases op with
  | insertProfile profile =>
    refine checked_outcome (fun row valid => ?_) faults
    refine .bind (change_ensures (·.insertProfile row) db) fun inserted => ?_
    split
    · rename_i fresh
      refine .pure fun s held => ?_
      obtain ⟨added,rfl⟩ := Prod.mk.inj held
      exact .insertProfile valid (by simpa [fresh] using added.symm)
    · exact .throw
  | updateProfile profile =>
    refine checked_outcome (fun row valid => ?_) faults
    refine .bind (change_ensures (·.updateProfile row) db) fun updated => ?_
    split
    · rename_i present
      refine .pure fun s held => ?_
      obtain ⟨found,rfl⟩ := Prod.mk.inj held
      exact .updateProfile valid (found ▸ present)
    · exact .throw
  | deleteProfile profile =>
    refine immediate_outcome ?_ faults
    refine .bind (m := fun _ s => s = db.deleteProfileSettings profile) ?_ fun _ => ?_
    · exact .execute fun s held => held ▸ rfl
    · refine .statement fun s found next held ran => ?_
      subst held
      cases ran
      exact .deleteProfile profile
  | putSettingValue now scope id value =>
    refine checked_outcome (fun _ valid => ?_) faults
    cases scope with
    | application =>
      refine .execute fun s held => ?_
      subst held
      exact .putApplication now (check_of_checkSetting valid)
    | profile profile =>
      refine .bind (requireProfile_ensures profile) fun _ => .execute fun s held => ?_
      obtain ⟨rfl,present⟩ := held
      exact .putProfile now present
    | worksheet worksheet =>
      refine .bind (requireWorksheet_ensures worksheet) fun _ => .statement fun s value next held ran => ?_
      obtain ⟨rfl,-⟩ := held
      exact .putWorksheet ran
  | clearSetting scope id =>
    refine immediate_outcome (.statement fun s found next held ran => ?_) faults
    subst held
    cases scope with
    | application | profile =>
      cases ran
      exact .clearSetting ..
    | worksheet =>
      cases ran
      exact .clearWorksheetSetting ..
  | clearWorksheetSettings worksheet =>
    refine immediate_outcome (.statement fun s rows next held ran => ?_) faults
    subst held
    cases ran
    exact .clearWorksheetSettings ..
  | saveWorksheet worksheet =>
    refine checked_outcome (fun _ _ => ?_) faults
    refine .bind (forM_ensures (fun profile => requireProfile_ensures profile) _) fun _ => .statement fun s value next held ran => ?_
    subst held
    exact .saveWorksheet ran
  | deleteWorksheet worksheet =>
    refine immediate_outcome (.statement fun s found next held ran => ?_) faults
    subst held
    cases ran
    exact .deleteWorksheet worksheet
  | saveLayout now layout =>
    refine immediate_outcome ?_ faults
    refine .bind (forM_ensures (fun worksheet => requireWorksheet_ensures worksheet) _) fun _ => ?_
    refine .bind (forM_ensures (fun profile => requireProfile_ensures profile) _) fun _ => .statement fun s value next held ran => ?_
    subst held
    exact .saveLayout ran
  | recordHistory entry => exact checked_outcome (fun _ _ => recordHistory_ensures mobile entry db) faults
  | clearHistory profile =>
    refine immediate_outcome ?_ faults
    refine .bind (change_ensures (·.deleteHistory profile) db) fun deleted => ?_
    refine .bind (m := fun _ s => deleted = (db.deleteHistory profile).1 ∧
      s = (db.deleteHistory profile).2.deleteHistoryMeta profile) ?_ fun _ => ?_
    · refine .execute fun s held => ?_
      obtain ⟨rfl,rfl⟩ := Prod.mk.inj held
      exact ⟨rfl,rfl⟩
    · refine .pure fun s held => ?_
      obtain ⟨rfl,rfl⟩ := held
      exact .clearHistory profile

theorem after_keeps {keeps : Db codec → Prop} (first : keeps .empty)
    (step : ∀ db op reply next, keeps db → Effect mobile db op reply next → keeps next) (attempts : List (Attempt codec)) :
    keeps (after mobile attempts) := by
  induction attempts using List.reverseRecOn with
  | nil => exact first
  | append_singleton attempts attempt ih =>
    rw [after_concat]
    rcases attempt.1.run_outcome mobile attempt.2 (after mobile attempts) with ⟨failure,ended⟩ | ⟨reply,next,ended,effect⟩
    · rw [Attempt.run,ended]
      exact ih
    · rw [Attempt.run,ended]
      exact step _ _ _ _ ih effect

end Reldex.Workspace
