import Reldex.WorkspaceEffects

/-! Every reference in the workspace store names a row that is there, after every operation,
whether it goes through or fails. Profile-scoped settings are not under a foreign key: there the
operations themselves keep the references. -/
namespace Reldex.Workspace
open Option
variable {codec : ProfileCodec}

structure Referential (db : Db codec) : Prop where
  profileSettings : ∀ row ∈ db.setting.rows, row.scope = .profile →
    ∃ profile : ProfileId, row.scopeId = profile.toText ∧ db.profile.has profile = true
  noWorksheetScope : ∀ row ∈ db.setting.rows, row.scope ≠ .worksheet
  worksheetSettings : ∀ row ∈ db.worksheetSetting.rows, db.worksheet.has row.worksheet = true
  history : ∀ row ∈ db.history.rows, db.profile.has row.2.profile = true
  historyMeta : ∀ row ∈ db.historyMeta.rows, db.profile.has row.profile = true
  worksheets : ∀ row ∈ db.worksheet.rows, ∀ profile, row.profile = some profile → db.profile.has profile = true
  layoutWorksheet : ∀ row, db.layout = some row → ∀ worksheet, row.activeWorksheet = some worksheet →
    db.worksheet.has worksheet = true
  layoutProfile : ∀ row, db.layout = some row → ∀ profile, row.activeProfile = some profile →
    db.profile.has profile = true

theorem refersTo_iff {db : Db codec} :
    db.refersTo reference = true ↔ ∀ profile, reference = some profile → db.profile.has profile = true := by
  cases reference <;> simp [Db.refersTo]

namespace Referential

theorem empty : Referential (Db.empty : Db codec) := by
  constructor <;> simp [Db.empty,Keyed.empty,Numbered.empty]

theorem forget_ne (named : Db.forget profile reference = some other) : reference = some other ∧ other ≠ profile := by
  unfold Db.forget at named
  split at named
  · cases named
  · rename_i apart
    exact ⟨named,fun same => apart (same ▸ named)⟩

variable {db : Db codec} (held : Referential db)
include held

theorem more_profiles {table : Keyed (@ProfileRow.id codec)}
    (more : ∀ profile, db.profile.has profile = true → table.has profile = true) :
    Referential { db with profile := table } where
  profileSettings row member word :=
    let ⟨profile,named,there⟩ := held.profileSettings row member word
    ⟨profile,named,more profile there⟩
  noWorksheetScope := held.noWorksheetScope
  worksheetSettings := held.worksheetSettings
  history row member := more _ (held.history row member)
  historyMeta row member := more _ (held.historyMeta row member)
  worksheets row member profile named := more profile (held.worksheets row member profile named)
  layoutWorksheet := held.layoutWorksheet
  layoutProfile row saved profile named := more profile (held.layoutProfile row saved profile named)

theorem insertProfile (row : ProfileRow codec) : Referential (db.insertProfile row).2 :=
  held.more_profiles fun profile there => by simp [Keyed.has_insert,there]

theorem updateProfile (row : ProfileRow codec) : Referential (db.updateProfile row).2 :=
  held.more_profiles fun profile there => by rw [Keyed.has_update]; exact there

theorem fewer_settings (fewer : ∀ row ∈ table.rows, row ∈ db.setting.rows) : Referential { db with setting := table } :=
  { held with
    profileSettings := fun row member => held.profileSettings row (fewer row member)
    noWorksheetScope := fun row member => held.noWorksheetScope row (fewer row member) }

theorem deleteProfileSettings (profile : ProfileId) : Referential (db.deleteProfileSettings profile) ∧
      ∀ row ∈ (db.deleteProfileSettings profile).setting.rows, row.scope = .profile → row.scopeId ≠ profile.toText := by
  refine ⟨held.fewer_settings fun row member => (Keyed.mem_delete.mp member).1,fun row member word named => ?_⟩
  have spared := (Keyed.mem_delete.mp member).2
  simp [word,named] at spared

theorem deleteProfile (unset : ∀ row ∈ db.setting.rows, row.scope = .profile → row.scopeId ≠ profile.toText) :
    Referential (db.deleteProfile profile).2 := by
  have stays : ∀ other, db.profile.has other = true → other ≠ profile →
      (db.profile.delete (·.id == profile)).has other = true := by
    intro other there apart
    have := Keyed.has_delete db.profile profile other
    rw [this,there]
    simpa using apart
  constructor
  · intro row member word
    obtain ⟨other,named,there⟩ := held.profileSettings row member word
    exact ⟨other,named,stays other there fun same => unset row member word (same ▸ named)⟩
  · exact held.noWorksheetScope
  · intro row member
    exact (Keyed.has_update _ (Db.forgetIn_id profile) _).trans (held.worksheetSettings row member)
  · intro row member
    obtain ⟨kept,other⟩ := List.mem_filter.mp member
    exact stays _ (held.history row kept) (by simpa using other)
  · intro row member
    obtain ⟨kept,other⟩ := Keyed.mem_delete.mp member
    exact stays _ (held.historyMeta row kept) (by simpa using other)
  · intro row member other named
    obtain ⟨old,kept,rfl⟩ := (Keyed.mem_update (Db.forgetIn_id profile)).mp member
    obtain ⟨before,apart⟩ := forget_ne named
    exact stays other (held.worksheets old kept other before) apart
  · intro row saved worksheet named
    obtain ⟨old,before,rfl⟩ := map_eq_some_iff.mp saved
    exact (Keyed.has_update _ (Db.forgetIn_id profile) _).trans (held.layoutWorksheet old before worksheet named)
  · intro row saved other named
    obtain ⟨old,before,rfl⟩ := map_eq_some_iff.mp saved
    obtain ⟨there,apart⟩ := forget_ne named
    exact stays other (held.layoutProfile old before other there) apart

theorem upsertSetting (scope : row.scope ≠ .worksheet)
    (named : row.scope = .profile → ∃ profile : ProfileId, row.scopeId = profile.toText ∧ db.profile.has profile = true) :
    Referential (db.upsertSetting row) :=
  { held with
    profileSettings := by
      intro other member word
      rcases Keyed.mem_upsert (Db.replaceSetting_key row) member with rfl | kept | ⟨old,kept,-,rfl⟩
      · exact named word
      · exact held.profileSettings other kept word
      · exact held.profileSettings old kept word
    noWorksheetScope := by
      intro other member
      rcases Keyed.mem_upsert (Db.replaceSetting_key row) member with rfl | kept | ⟨old,kept,-,rfl⟩
      · exact scope
      · exact held.noWorksheetScope other kept
      · exact held.noWorksheetScope old kept }

theorem upsertWorksheetSetting (ran : db.upsertWorksheetSetting row = .ok ((),next)) : Referential next := by
  unfold Db.upsertWorksheetSetting at ran
  split at ran
  · rename_i there
    cases ran
    refine { held with worksheetSettings := fun other member => ?_ }
    rcases Keyed.mem_upsert (Db.replaceWorksheetSetting_key row) member with rfl | kept | ⟨old,kept,-,rfl⟩
    · exact there
    · exact held.worksheetSettings other kept
    · exact held.worksheetSettings old kept
  · cases ran

theorem fewer_worksheetSettings (p : WorksheetSettingRow → Bool) :
    Referential { db with worksheetSetting := db.worksheetSetting.delete p } :=
  { held with worksheetSettings := fun row member => held.worksheetSettings row (Keyed.mem_delete.mp member).1 }

theorem upsertWorksheet {worksheet : Worksheet}
    (ran : db.upsertWorksheet worksheet = .ok ((),next)) : Referential next := by
  unfold Db.upsertWorksheet at ran
  split at ran
  · rename_i there
    cases ran
    have named := refersTo_iff.mp there
    have more (id : WorksheetId) (held : db.worksheet.has id = true) :
        (db.worksheet.upsert worksheet (Db.replaceWorksheet worksheet) (Db.replaceWorksheet_id worksheet)).has id = true := by
      simp [Keyed.has_upsert,held]
    refine { held with
      worksheetSettings := fun row member => more _ (held.worksheetSettings row member)
      worksheets := fun row member profile => ?_
      layoutWorksheet := fun row saved id active => more id (held.layoutWorksheet row saved id active) }
    rcases Keyed.mem_upsert (Db.replaceWorksheet_id worksheet) member with rfl | kept | ⟨old,kept,-,rfl⟩
    · exact named profile
    · exact held.worksheets row kept profile
    · exact named profile
  · cases ran

theorem deleteWorksheet (worksheet : WorksheetId) : Referential (db.deleteWorksheet worksheet).2 := by
  have stays : ∀ other, db.worksheet.has other = true → other ≠ worksheet →
      (db.worksheet.delete (·.id == worksheet)).has other = true := by
    intro other there apart
    rw [Keyed.has_delete,there]
    simpa using apart
  exact { held with
    worksheetSettings := by
      intro row member
      obtain ⟨kept,other⟩ := Keyed.mem_delete.mp member
      exact stays _ (held.worksheetSettings row kept) (by simpa using other)
    worksheets := fun row member => held.worksheets row (Keyed.mem_delete.mp member).1
    layoutWorksheet := by
      intro row saved other named
      obtain ⟨old,before,rfl⟩ := map_eq_some_iff.mp saved
      simp only at named
      split at named
      · cases named
      · rename_i apart
        exact stays other (held.layoutWorksheet old before other named) fun same => apart (same ▸ named)
    layoutProfile := by
      intro row saved profile named
      obtain ⟨old,before,rfl⟩ := map_eq_some_iff.mp saved
      exact held.layoutProfile old before profile named }

theorem upsertLayout (ran : db.upsertLayout row = .ok ((),next)) : Referential next := by
  unfold Db.upsertLayout at ran
  split at ran
  · rename_i there
    cases ran
    obtain ⟨worksheet,profile⟩ := Bool.and_eq_true_iff.mp there
    refine { held with layoutWorksheet := fun saved same id named => ?_, layoutProfile := fun saved same id named => ?_ }
    · cases same
      rwa [named] at worksheet
    · cases same
      exact refersTo_iff.mp profile id named
  · cases ran

theorem insertHistory {id : Nat} (ran : db.insertHistory row = .ok (id,next)) : Referential next := by
  unfold Db.insertHistory at ran
  split_ifs at ran with absent
  cases ran
  refine { held with history := fun other member => ?_ }
  rcases List.mem_append.mp member with kept | new
  · exact held.history other kept
  · rw [List.mem_singleton.mp new]
    simpa using absent

theorem fewer_history (p : Nat × HistoryRow → Bool) : Referential { db with history := db.history.delete p } :=
  { held with history := fun row member => held.history row (List.mem_filter.mp member).1 }

theorem other_counts
    (named : ∀ row ∈ table.rows, db.profile.has row.profile = true) : Referential { db with historyMeta := table } :=
  { held with historyMeta := named }

theorem countHistory (ran : db.countHistory profile = .ok (count,next)) : Referential next := by
  unfold Db.countHistory at ran
  split_ifs at ran with absent
  cases ran
  refine held.other_counts fun row member => ?_
  rcases Keyed.mem_upsert Db.oneMore_profile member with rfl | kept | ⟨old,kept,-,rfl⟩
  · simpa using absent
  · exact held.historyMeta row kept
  · exact held.historyMeta old kept

theorem lessCount (profile : ProfileId) (excess : Int) : Referential (db.lessCount profile excess) := by
  refine held.other_counts fun row member => ?_
  obtain ⟨old,kept,rfl⟩ := (Keyed.mem_update (Db.lessBy_profile profile excess)).mp member
  rw [Db.lessBy_profile]
  exact held.historyMeta old kept

theorem deleteHistoryMeta (profile : ProfileId) : Referential (db.deleteHistoryMeta profile) :=
  held.other_counts fun row member => held.historyMeta row (Keyed.mem_delete.mp member).1

theorem trim (mobile : Bool) (profile : ProfileId) (count : Int) : Referential (db.trim mobile profile count) := by
  unfold Db.trim
  split
  · exact held
  · split
    · exact Referential.lessCount (held.fewer_history _) profile _
    · exact held

end Referential

theorem Effect.referential (effect : Effect mobile db op reply next) (held : Referential db) : Referential next := by
  cases effect with
  | insertProfile _ _ => exact held.insertProfile _
  | updateProfile _ _ => exact held.updateProfile _
  | deleteProfile profile =>
    obtain ⟨still,unset⟩ := held.deleteProfileSettings profile
    exact still.deleteProfile unset
  | putApplication now _ => exact held.upsertSetting (by simp) (by simp)
  | putProfile now present => exact held.upsertSetting (by simp) fun _ => ⟨_,rfl,present⟩
  | putWorksheet ran => exact held.upsertWorksheetSetting ran
  | clearSetting _ _ => exact held.fewer_settings fun row member => (Keyed.mem_delete.mp member).1
  | clearWorksheetSetting _ _ => exact held.fewer_worksheetSettings _
  | clearWorksheetSettings _ => exact held.fewer_worksheetSettings _
  | saveWorksheet ran => exact held.upsertWorksheet ran
  | deleteWorksheet worksheet => exact held.deleteWorksheet worksheet
  | saveLayout ran => exact held.upsertLayout ran
  | recordHistory inserted counted => exact ((held.insertHistory inserted).countHistory counted).trim ..
  | clearHistory profile => exact Referential.deleteHistoryMeta (held.fewer_history _) profile

/-- After any operations from an empty store, every reference names a row that is there, and an
operation that fails then changes nothing. -/
theorem references_name_existing_rows (mobile : Bool) (attempts : List (Attempt codec)) :
    Referential (after mobile attempts) ∧ ∀ (attempt : Attempt codec) (failure : Failure codec),
        (attempt.run mobile (after mobile attempts)).1 = .error failure →
          (attempt.run mobile (after mobile attempts)).2 = after mobile attempts := by
  refine ⟨after_keeps .empty (fun _ _ _ _ held effect => effect.referential held) attempts,fun attempt failure failed => ?_⟩
  rcases attempt.1.run_outcome mobile attempt.2 (after mobile attempts) with ⟨_,ended⟩ | ⟨_,_,ended,_⟩
  · rw [Attempt.run,ended]
  · rw [Attempt.run,ended] at failed
    cases failed

end Reldex.Workspace
