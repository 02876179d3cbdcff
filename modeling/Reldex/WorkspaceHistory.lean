import Reldex.WorkspaceIntegrity

/-! The query history of a profile is a counted suffix of what was recorded for it: a record
appends a row and trims the oldest ones by a count kept beside the rows. -/
namespace Reldex.Workspace
open Option
variable {codec : ProfileCodec}

def Db.rowsOf (db : Db codec) (profile : ProfileId) : List (Nat × HistoryRow) := db.history.matching (·.profile == profile)

/-- The count `history_meta` has for a profile; a profile without a row has none. -/
def Db.countOf (db : Db codec) (profile : ProfileId) : Int := ((db.historyMeta.lookup profile).map (·.count)).getD 0

def Counted (db : Db codec) : Prop := ∀ profile, db.countOf profile = (db.rowsOf profile).length

def trimmed (limit : Option UInt32) (rows : List α) : List α :=
  match limit with
  | none => rows
  | some limit => rows.drop (rows.length - limit.toNat)

theorem trimmed_suffix (limit : Option UInt32) (rows : List α) : trimmed limit rows <:+ rows := by
  cases limit with
  | none => exact List.suffix_refl rows
  | some limit => exact List.drop_suffix _ _

section
variable {db : Db codec}

theorem matching_apart (apart : other ≠ profile) (row : HistoryRow)
    (own : (row.profile == other) = true) : (row.profile == profile) = false := by
  have : row.profile = other := by simpa using own
  simpa [this] using apart

theorem rowsOf_deleteOldest (profile : ProfileId) (excess : Nat) :
    (db.deleteOldest profile excess).rowsOf profile = (db.rowsOf profile).drop excess :=
  Numbered.matching_delete_oldest ..

theorem rowsOf_deleteOldest_other (apart : other ≠ profile) (excess : Nat) :
    (db.deleteOldest profile excess).rowsOf other = db.rowsOf other :=
  Numbered.matching_delete_oldest_other _ (matching_apart apart) _

theorem countOf_lessCount (present : db.historyMeta.has profile = true) :
    (db.lessCount profile excess).countOf profile = db.countOf profile - excess := by
  obtain ⟨row,found⟩ := isSome_iff_exists.mp present
  have own : row.profile = profile := Keyed.key_of_lookup found
  simp [Db.countOf,Db.lessCount,Keyed.lookup_update,found,Db.lessBy,own]

theorem countOf_lessCount_other (apart : other ≠ profile) (excess : Int) :
    (db.lessCount profile excess).countOf other = db.countOf other := by
  simp only [Db.countOf,Db.lessCount,Keyed.lookup_update]
  cases found : db.historyMeta.lookup other with
  | none => rfl
  | some row =>
    have own : row.profile = other := Keyed.key_of_lookup found
    simp [Db.lessBy,own,apart]

theorem countOf_upsert (profile other : ProfileId) :
    Db.countOf { db with historyMeta := db.historyMeta.upsert ⟨profile,1⟩ Db.oneMore Db.oneMore_profile } other =
      db.countOf other + if profile = other then 1 else 0 := by
  simp only [Db.countOf,Keyed.lookup_upsert]
  by_cases same : profile = other
  · subst same
    cases found : db.historyMeta.lookup profile <;> simp [Db.oneMore]
  · simp [same]

theorem Counted.present (counted : Counted db) (some_rows : db.rowsOf profile ≠ []) :
    db.historyMeta.has profile = true := by
  by_contra absent
  have none_there : db.historyMeta.lookup profile = none := by simpa [Keyed.has] using absent
  have count := counted profile
  have := List.length_pos_iff.mpr some_rows
  simp only [Db.countOf,none_there,map_none,getD_none] at count
  omega

theorem Counted.cut (counted : Counted db) (fits : excess ≤ (db.rowsOf profile).length)
    (some_rows : db.rowsOf profile ≠ []) : Counted ((db.deleteOldest profile excess).lessCount profile excess) := by
  intro other
  by_cases same : other = profile
  · subst same
    have there : (db.deleteOldest other excess).historyMeta.has other = true := counted.present some_rows
    have rows : ((db.deleteOldest other excess).lessCount other excess).rowsOf other = (db.rowsOf other).drop excess :=
      rowsOf_deleteOldest other excess
    rw [countOf_lessCount there,rows,List.length_drop]
    have : (db.deleteOldest other excess).countOf other = _ := counted other
    omega
  · rw [countOf_lessCount_other same]
    exact (counted other).trans (congrArg (fun rows => (rows.length : Int)) (rowsOf_deleteOldest_other same excess).symm)

/-- A trim by a count that is right leaves what the limit allows, and a count that is right. -/
theorem Counted.trim (counted : Counted db) (mobile : Bool) {count : Int} (right : count = (db.rowsOf profile).length) :
    Counted (db.trim mobile profile count) ∧
      (db.trim mobile profile count).rowsOf profile = trimmed (currentMaxEntries mobile db.setting) (db.rowsOf profile) ∧
      ∀ other ≠ profile, (db.trim mobile profile count).rowsOf other = db.rowsOf other := by
  subst right
  unfold Db.trim
  cases stored : currentMaxEntries mobile db.setting with
  | none => exact ⟨counted,rfl,fun _ _ => rfl⟩
  | some limit =>
    simp only
    split
    · rename_i above
      have number : ((db.rowsOf profile).length - limit.toNat : Int) = ((db.rowsOf profile).length - limit.toNat : Nat) := by
        omega
      rw [number,Int.toNat_natCast]
      exact ⟨counted.cut (Nat.sub_le ..) (List.ne_nil_of_length_pos (by omega)),rowsOf_deleteOldest ..,
        fun other apart => rowsOf_deleteOldest_other apart _⟩
    · rename_i within
      have nothing : (db.rowsOf profile).length - limit.toNat = 0 := by omega
      exact ⟨counted,by simp [trimmed,nothing],fun _ _ => rfl⟩

structure Recorded (mobile : Bool) (entry : HistoryEntry) (db : Db codec) (id : Nat) (next : Db codec) : Prop where
  own : next.rowsOf entry.profile =
    trimmed (currentMaxEntries mobile db.setting) (db.rowsOf entry.profile ++ [(id,entry.row)])
  others : ∀ other ≠ entry.profile, next.rowsOf other = db.rowsOf other
  counted : Counted next
  setting : next.setting = db.setting

theorem trim_setting (mobile : Bool) (profile : ProfileId) (count : Int) :
    (db.trim mobile profile count).setting = db.setting := by
  unfold Db.trim
  split
  · rfl
  · split <;> rfl

theorem Counted.recorded (counted : Counted db) (mobile : Bool) {id : Nat}
    (inserted : db.insertHistory entry.row = .ok (id,grown))
    (ran : grown.countHistory entry.profile = .ok (count,more)) :
    Recorded mobile entry db id (more.trim mobile entry.profile count) := by
  unfold Db.insertHistory at inserted
  split_ifs at inserted
  cases inserted
  unfold Db.countHistory at ran
  split_ifs at ran
  have rows (profile : ProfileId) : more.rowsOf profile =
      db.rowsOf profile ++ if entry.profile = profile then [(db.history.last + 1,entry.row)] else [] := by
    cases ran
    change (db.history.insert entry.row).matching _ = _
    rw [Numbered.matching_insert]
    simp [Db.rowsOf,HistoryEntry.row]
  have counts (profile : ProfileId) : more.countOf profile = db.countOf profile + if entry.profile = profile then 1 else 0 := by
    cases ran
    exact countOf_upsert entry.profile profile
  have still : Counted more := by
    intro profile
    rw [rows,counts,counted profile]
    split <;> simp
  have right : count = (more.rowsOf entry.profile).length := by
    rw [← still,counts]
    cases ran
    simp only [Db.countOf,if_pos]
    cases db.historyMeta.lookup entry.profile <;> simp
  have setting : more.setting = db.setting := by cases ran; rfl
  obtain ⟨after,own,others⟩ := still.trim mobile right
  refine ⟨?_,fun other apart => ?_,after,(trim_setting ..).trans setting⟩
  · rw [own,rows,if_pos rfl,setting]
  · rw [others other apart,rows,if_neg (Ne.symm apart),List.append_nil]

end

/-- What was recorded for a profile since it was created or last cleared, after one more operation. -/
def noted (profile : ProfileId) (log : List (Nat × HistoryRow)) : Op codec → Except (Failure codec) Reply →
    List (Nat × HistoryRow)
  | .recordHistory entry, .ok (.recorded id) => if entry.profile = profile then log ++ [(id,entry.row)] else log
  | .clearHistory cleared, .ok _ => if cleared = profile then [] else log
  | .deleteProfile deleted, .ok _ => if deleted = profile then [] else log
  | .insertProfile created, .ok _ => if created.id = profile then [] else log
  | _, _ => log

def recorded (mobile : Bool) (profile : ProfileId) (attempts : List (Attempt codec)) : List (Nat × HistoryRow) :=
  (attempts.foldl (fun (db,log) attempt =>
    ((attempt.run mobile db).2,noted profile log attempt.1 (attempt.run mobile db).1)) (Db.empty,[])).2

theorem recorded_concat (mobile : Bool) (profile : ProfileId) (attempts : List (Attempt codec)) (attempt : Attempt codec) :
    recorded mobile profile (attempts ++ [attempt]) =
      noted profile (recorded mobile profile attempts) attempt.1 (attempt.run mobile (after mobile attempts)).1 := by
  have state : (attempts.foldl (fun (db,log) attempt =>
      ((attempt.run mobile db).2,noted profile log attempt.1 (attempt.run mobile db).1)) (Db.empty,[])).1 =
      after mobile attempts := by
    induction attempts using List.reverseRecOn with
    | nil => rfl
    | append_singleton attempts attempt ih => rw [after_concat,List.foldl_append,← ih]; rfl
  rw [recorded,List.foldl_append,← state]
  rfl

/-- The stored limit, if there is one, is one that passes its check. -/
def LimitStored (mobile : Bool) (db : Db codec) : Prop :=
  ∀ row ∈ db.setting.rows, row.scope = .application → row.key = historyKey mobile → Acceptable row.toStoredSetting

theorem acceptable_stored {id : SettingId}
    (valid : (id.descriptor mobile).check .application value = .ok ()) (own : id.storageKey mobile = historyKey mobile) :
    Acceptable (storedSetting mobile id value) := by
  have history : id = .historyMaxEntriesPerProfile :=
    some.inj (((SettingId.fromStorageKey_eq_some mobile).mpr own).symm.trans
      ((SettingId.fromStorageKey_eq_some mobile).mpr rfl))
  subst history
  have kind : value.kind = .entryLimit := by
    by_contra other
    have := (SettingDescriptor.check_eq_ok.mp valid).2
    simp [SettingDescriptor.checkValue,SettingId.descriptor,other] at this
  cases value with
  | entryLimit limit =>
    refine ⟨rfl,rfl,fun stored int => ?_⟩
    cases limit with
    | unlimited => cases int
    | count count =>
      have bounds := (check_limit mobile _).mp valid count rfl
      have : stored = (count.1.toNat : Int) := (some.inj int).symm
      omega
  | _ => cases kind

theorem Effect.limitStored {db next : Db codec}
    (effect : Effect mobile db op reply next) (held : LimitStored mobile db) : LimitStored mobile next := by
  have upserts {row : SettingRow} (fine : row.scope = .application → row.key = historyKey mobile →
      Acceptable row.toStoredSetting) : LimitStored mobile (db.upsertSetting row) := by
    intro other member word own
    rcases Keyed.mem_upsert (Db.replaceSetting_key row) member with rfl | kept | ⟨old,kept,same,rfl⟩
    · exact fine word own
    · exact held other kept word own
    · simp only [SettingRow.primaryKey,Prod.mk.injEq] at same
      exact fine (same.1 ▸ word) (same.2.2 ▸ own)
  cases effect with
  | deleteProfile => exact fun row member => held row (Keyed.mem_delete.mp member).1
  | putApplication now valid => exact upserts fun _ own => acceptable_stored valid own
  | putProfile now present => exact upserts (by simp)
  | putWorksheet ran =>
    unfold Db.upsertWorksheetSetting at ran
    split_ifs at ran
    cases ran
    exact held
  | clearSetting => exact fun row member => held row (Keyed.mem_delete.mp member).1
  | saveWorksheet ran =>
    unfold Db.upsertWorksheet at ran
    split_ifs at ran
    cases ran
    exact held
  | saveLayout ran =>
    unfold Db.upsertLayout at ran
    split_ifs at ran
    cases ran
    exact held
  | recordHistory inserted counted =>
    unfold Db.insertHistory at inserted
    split_ifs at inserted
    cases inserted
    unfold Db.countHistory at counted
    split_ifs at counted
    cases counted
    unfold LimitStored
    rw [trim_setting]
    exact held
  | _ => exact held

structure Kept (mobile : Bool) (db : Db codec) (log : ProfileId → List (Nat × HistoryRow)) : Prop where
  counted : Counted db
  limited : LimitStored mobile db
  suffix : ∀ profile, db.rowsOf profile <:+ log profile
  referential : Referential db

theorem rowsOf_delete (db : Db codec) (profile other : ProfileId) :
    (db.history.delete (·.2.profile == profile)).matching (·.profile == other) =
      if other = profile then [] else db.rowsOf other := by
  rw [Numbered.matching_delete]
  split
  · rename_i same
    subst same
    refine List.filter_eq_nil_iff.mpr fun row member => ?_
    simpa using (List.mem_filter.mp member).2
  · rename_i apart
    refine List.filter_eq_self.mpr fun row member => ?_
    simpa using matching_apart apart row.2 (List.mem_filter.mp member).2

theorem countOf_delete (db : Db codec) (profile other : ProfileId) :
    (((db.historyMeta.delete (·.profile == profile)).lookup other).map (·.count)).getD 0 =
      if other = profile then 0 else db.countOf other := by
  rw [Keyed.lookup_delete,Db.countOf]
  cases found : db.historyMeta.lookup other with
  | none => simp
  | some row =>
    have own : row.profile = other := Keyed.key_of_lookup found
    by_cases same : other = profile <;> simp [Option.filter,own,same]

theorem Counted.delete (counted : Counted db) {profile : ProfileId}
    (rows : next.history = db.history.delete (·.2.profile == profile))
    (counts : next.historyMeta = db.historyMeta.delete (·.profile == profile)) : Counted next := by
  intro other
  rw [Db.countOf,counts,countOf_delete,Db.rowsOf,rows,rowsOf_delete]
  split
  · rfl
  · exact counted other

theorem rowsOf_fresh (held : Referential db) (fresh : db.profile.has profile = false) : db.rowsOf profile = [] := by
  refine List.filter_eq_nil_iff.mpr fun row member own => ?_
  have there := held.history row member
  rw [show row.2.profile = profile by simpa using own,fresh] at there
  cases there

theorem suffix_delete {db : Db codec} {log later : ProfileId → List (Nat × HistoryRow)}
    (suffix : ∀ profile, db.rowsOf profile <:+ log profile)
    (deleted : ProfileId) (kept : ∀ profile ≠ deleted, later profile = log profile) (profile : ProfileId) :
    (db.history.delete (·.2.profile == deleted)).matching (·.profile == profile) <:+ later profile := by
  rw [rowsOf_delete]
  split
  · exact List.nil_suffix
  · rename_i apart
    exact kept profile apart ▸ suffix profile

theorem Effect.same_history (effect : Effect mobile db op reply next) (notRecord : ∀ entry, op ≠ .recordHistory entry)
    (notClear : ∀ profile, op ≠ .clearHistory profile) (notDelete : ∀ profile, op ≠ .deleteProfile profile) :
    next.history = db.history ∧ next.historyMeta = db.historyMeta := by
  cases effect with
  | deleteProfile profile => exact absurd rfl (notDelete profile)
  | recordHistory => exact absurd rfl (notRecord _)
  | clearHistory profile => exact absurd rfl (notClear profile)
  | putWorksheet ran =>
    unfold Db.upsertWorksheetSetting at ran
    split_ifs at ran
    cases ran
    exact ⟨rfl,rfl⟩
  | saveWorksheet ran =>
    unfold Db.upsertWorksheet at ran
    split_ifs at ran
    cases ran
    exact ⟨rfl,rfl⟩
  | saveLayout ran =>
    unfold Db.upsertLayout at ran
    split_ifs at ran
    cases ran
    exact ⟨rfl,rfl⟩
  | _ => exact ⟨rfl,rfl⟩

theorem Kept.step (kept : Kept mobile db log) (effect : Effect mobile db op reply next) :
    Kept mobile next fun profile => noted profile (log profile) op (.ok reply) := by
  have limited := effect.limitStored kept.limited
  have referential := effect.referential kept.referential
  -- An operation that leaves the history as it is only notes a creation, of a profile without rows.
  have unchanged (same : next.history = db.history ∧ next.historyMeta = db.historyMeta)
      (log' : ProfileId → List (Nat × HistoryRow)) (suffix : ∀ profile, db.rowsOf profile <:+ log' profile) :
      Kept mobile next log' := by
    refine ⟨fun profile => ?_,limited,fun profile => ?_,referential⟩
    · rw [Db.countOf,Db.rowsOf,same.1,same.2]
      exact kept.counted profile
    · rw [Db.rowsOf,same.1]
      exact suffix profile
  cases op with
  | recordHistory entry =>
    cases effect with
    | recordHistory inserted ran =>
      have result := kept.counted.recorded mobile inserted ran
      refine ⟨result.counted,limited,fun profile => ?_,referential⟩
      simp only [noted]
      split
      · rename_i own
        subst own
        rw [result.own]
        obtain ⟨older,before⟩ := kept.suffix entry.profile
        exact (trimmed_suffix ..).trans ⟨older,by rw [← List.append_assoc,before]⟩
      · rename_i apart
        rw [result.others profile (Ne.symm apart)]
        exact kept.suffix profile
  | clearHistory cleared =>
    cases effect with
    | clearHistory =>
      exact ⟨kept.counted.delete rfl rfl,limited,suffix_delete kept.suffix _ fun _ apart => if_neg apart.symm,referential⟩
  | deleteProfile deleted =>
    cases effect with
    | deleteProfile =>
      exact ⟨kept.counted.delete rfl rfl,limited,suffix_delete kept.suffix _ fun _ apart => if_neg apart.symm,referential⟩
  | insertProfile created =>
    refine unchanged (effect.same_history (by simp) (by simp) (by simp)) _ fun profile => ?_
    cases effect with
    | insertProfile valid fresh =>
      have own : _ = created.id := encoded_id valid
      simp only [noted]
      split
      · rename_i same
        rw [own,same] at fresh
        exact rowsOf_fresh kept.referential fresh ▸ List.suffix_refl _
      · exact kept.suffix profile
  | _ => exact unchanged (effect.same_history (by simp) (by simp) (by simp)) _ kept.suffix

theorem kept_after (mobile : Bool) (attempts : List (Attempt codec)) :
    Kept mobile (after mobile attempts) fun profile => recorded mobile profile attempts := by
  induction attempts using List.reverseRecOn with
  | nil =>
    refine ⟨fun profile => rfl,by simp [LimitStored,after,Db.empty,Keyed.empty],fun profile => List.suffix_refl _,.empty⟩
  | append_singleton attempts attempt ih =>
    simp only [recorded_concat,after_concat]
    rcases attempt.1.run_outcome mobile attempt.2 (after mobile attempts) with ⟨failure,ended⟩ | ⟨reply,next,ended,effect⟩
    · rw [Attempt.run,ended]
      have same (profile : ProfileId) (log : List (Nat × HistoryRow)) :
          noted profile log attempt.1 (.error failure : Except (Failure codec) Reply) = log := by
        cases attempt.1 <;> rfl
      simpa only [same] using ih
    · rw [Attempt.run,ended]
      exact ih.step effect

def recordOf (profile : ProfileId) (row : Nat × HistoryRow) : HistoryRecord where
  id := row.1
  profile := profile
  executedAt := row.2.executedAt
  statement := row.2.statement
  outcome := ((decodeHistoryOutcome row.2.outcome row.2.nativeCode).toOption).getD .succeeded
  elapsedMs := u64OrZero row.2.elapsedMs
  rowCount := row.2.rowCount.map u64OrZero

theorem decodeHistory_eq (profile : ProfileId) (row : Nat × HistoryRow) :
    (decodeHistory profile row : Except (Failure codec) HistoryRecord) = .ok (recordOf profile row) := by
  have known := row.2.known
  simp only [List.mem_cons,List.not_mem_nil,or_false] at known
  unfold decodeHistory recordOf
  rcases known with word | word | word | word <;> simp [word,decodeHistoryOutcome,Except.toOption]

theorem history_eq (db : Db codec) (profile : ProfileId) (page : HistoryPage) : history db profile page =
      .ok ((db.history.newest (·.profile == profile) page.before page.limit.toNat).map (recordOf profile)) := by
  rw [history,funext (decodeHistory_eq profile)]
  exact List.mapM_pure

def readPages (db : Db codec) (profile : ProfileId) : Option Nat → List UInt32 → Except (Failure codec) (List HistoryRecord)
  | _, [] => .ok []
  | before, limit :: limits => do
    let page ← history db profile ⟨limit,before⟩
    match page.getLast? with
    | none => return page
    | some record => return page ++ (← readPages db profile (some record.id) limits)

theorem readPages_eq (db : Db codec) (profile : ProfileId) (before : Option Nat) (limits : List UInt32) :
    readPages db profile before limits =
      .ok ((db.history.pages (·.profile == profile) before (limits.map UInt32.toNat)).map (recordOf profile)) := by
  induction limits generalizing before with
  | nil => rfl
  | cons limit limits ih =>
    simp only [readPages,history_eq,List.map_cons,Numbered.pages]
    generalize db.history.newest (·.profile == profile) before limit.toNat = page
    change (match (page.map (recordOf profile)).getLast? with
      | none => _
      | some record => _) = _
    rw [List.getLast?_map]
    cases page.getLast? with
    | none => rfl
    | some row =>
      simp only [map_some,List.map_append]
      rw [show (recordOf profile row).id = row.1 from rfl,ih]
      rfl

/-- After any operations from an empty store, for every profile: its count is the number of its
rows; its rows are the last ones recorded since it was created or cleared, in that order; a
record then leaves at most as many rows as the limit in force allows, and deletes none that it
allows; and pages of any sizes read every row once, the newest first. -/
theorem history_is_a_counted_suffix (mobile : Bool) (attempts : List (Attempt codec)) (profile : ProfileId) :
    let db := after mobile attempts
    db.countOf profile = (db.rowsOf profile).length ∧
    (db.rowsOf profile <:+ recorded mobile profile attempts ∧ ((db.rowsOf profile).map Prod.fst).Pairwise (· < ·)) ∧
    (∀ entry faults id next, Attempt.run mobile (.recordHistory entry,faults) db = (.ok (.recorded id),next) →
      (∀ other ≠ entry.profile, next.rowsOf other = db.rowsOf other) ∧
      match effectiveMaxEntries mobile db.setting with
      | none => next.rowsOf entry.profile = db.rowsOf entry.profile ++ [(id,entry.row)]
      | some limit => (next.rowsOf entry.profile).length ≤ limit.toNat ∧
        next.rowsOf entry.profile =
          (db.rowsOf entry.profile ++ [(id,entry.row)]).drop ((db.rowsOf entry.profile).length + 1 - limit.toNat)) ∧
    ∀ limits : List UInt32, (∀ limit ∈ limits, limit ≠ 0) → readPages db profile none limits =
      .ok (((db.rowsOf profile).reverse.take (limits.map UInt32.toNat).sum).map (recordOf profile)) := by
  have kept := kept_after mobile attempts
  refine ⟨kept.counted profile,⟨kept.suffix profile,Numbered.matching_ordered ..⟩,fun entry faults id next ran => ?_,
    fun limits positive => ?_⟩
  · rcases Op.run_outcome mobile (.recordHistory entry) faults (after mobile attempts) with
      ⟨failure,ended⟩ | ⟨reply,_,ended,effect⟩
    · cases ended.symm.trans ran
    · cases ended.symm.trans ran
      cases effect with
      | recordHistory inserted counted =>
        have result := kept.counted.recorded mobile inserted counted
        have shown : currentMaxEntries mobile (after mobile attempts).setting = _ :=
          (currentMaxEntries_eq_iff mobile _).mpr fun row member word own => .inl (kept.limited row member word own)
        have own := result.own
        rw [shown] at own
        refine ⟨result.others,?_⟩
        cases limit : effectiveMaxEntries mobile (after mobile attempts).setting with
        | none =>
          rw [limit] at own
          exact own
        | some limit' =>
          rw [limit] at own
          simp only [trimmed,List.length_append,List.length_singleton] at own
          refine ⟨?_,own⟩
          rw [own]
          simp only [List.length_drop,List.length_append,List.length_singleton]
          omega
  · rw [readPages_eq,Numbered.pages_eq _ _ (by simpa [UInt32.pos_iff_ne_zero,← UInt32.toNat_inj,Nat.pos_iff_ne_zero] using positive)]
    rfl

end Reldex.Workspace
