import Reldex.Settings
import Reldex.Tables
import Mathlib.Algebra.Order.Ring.Int

/-! The `setting` table. A row is decoded by its kind word and checked against its setting
before it enters a layer; a row that does not pass is reported, and the level below is used.
The trim of the history reads the same row in its own way. -/
namespace Reldex.Workspace
open List
variable {id : SettingId}

/-- The columns of a stored value. No row has both an integer and a text. -/
structure StoredSetting where
  key : String
  kind : String
  int : Option Int
  text : Option Text
  single : int = none ∨ text = none
  deriving DecidableEq

inductive ScopeWord where
  | application | profile | worksheet
  deriving DecidableEq, Repr

/-- A row of `setting`, with the table's checks. -/
structure SettingRow extends StoredSetting where
  scope : ScopeWord
  scopeId : Text
  updatedAt : Int
  unnamed : scope = .application ↔ scopeId = []
  deriving DecidableEq

/-- `PRIMARY KEY (scope, scope_id COLLATE NOCASE, setting_key)`. -/
def SettingRow.primaryKey (row : SettingRow) : ScopeWord × Text × String := (row.scope,lower row.scopeId,row.key)

abbrev SettingTable := Keyed SettingRow.primaryKey

/-- `SELECT … WHERE scope = ? AND scope_id = ? ORDER BY setting_key`. -/
def selectSettings (table : SettingTable) (scope : ScopeWord) (scopeId : Text) : List StoredSetting :=
  ((table.rows.filter fun row => row.scope == scope && lower row.scopeId == lower scopeId).map
    SettingRow.toStoredSetting).insertionSort fun a b => a.key ≤ b.key

def kindWord : ValueKind → String
  | .bool => "bool"
  | .timeLimit => "time_limit"
  | .count => "count"
  | .byteLimit => "byte_limit"
  | .entryLimit => "entry_limit"

def kindFromWord (word : String) : Option ValueKind :=
  if word = "bool" then some .bool
  else if word = "time_limit" then some .timeLimit
  else if word = "count" then some .count
  else if word = "byte_limit" then some .byteLimit
  else if word = "entry_limit" then some .entryLimit
  else none

def encodeValue (value : SettingValue) : String × Option Int :=
  let int : Option Int := match value with
    | .bool on => some on.toInt
    | .count count => some count.toNat
    | .timeLimit (.seconds seconds) => some seconds.1.toNat
    | .byteLimit (.bytes bytes) => some bytes.1.toNat
    | .entryLimit (.count count) => some count.1.toNat
    | .timeLimit .noLimit | .byteLimit .unlimited | .entryLimit .unlimited => none
  (kindWord value.kind,int)

inductive DecodeValueError where
  | unknownKind (kind : String)
  | malformed
  deriving DecidableEq, Repr

/-- `u32::try_from`. -/
def u32TryFrom (value : Int) : Option UInt32 :=
  if 0 ≤ value ∧ value < 2^32 then some (UInt32.ofNat value.toNat) else none

def nonZero (value : Int) : Option NonZeroU32 :=
  (u32TryFrom value).bind fun n => if nonzero : n ≠ 0 then some ⟨n,nonzero⟩ else none

def decodeValue (kind : String) (int : Option Int) (text : Option Text) : Except DecodeValueError SettingValue :=
  match kindFromWord kind with
  | none => .error (.unknownKind kind)
  | some kind =>
    -- No kind this build knows uses the text column.
    if text.isSome then .error .malformed
    else match kind, int with
      | .bool, some value =>
        if value = 0 then .ok (.bool false) else if value = 1 then .ok (.bool true) else .error .malformed
      | .count, some count => (u32TryFrom count).elim (.error .malformed) fun count => .ok (.count count)
      | .timeLimit, none => .ok (.timeLimit .noLimit)
      | .timeLimit, some seconds =>
        (nonZero seconds).elim (.error .malformed) fun seconds => .ok (.timeLimit (.seconds seconds))
      | .byteLimit, none => .ok (.byteLimit .unlimited)
      | .byteLimit, some bytes => (nonZero bytes).elim (.error .malformed) fun bytes => .ok (.byteLimit (.bytes bytes))
      | .entryLimit, none => .ok (.entryLimit .unlimited)
      | .entryLimit, some count => (nonZero count).elim (.error .malformed) fun count => .ok (.entryLimit (.count count))
      | _, _ => .error .malformed

theorem nonZero_eq_some : nonZero value = some n ↔ value = (n.1.toNat : Int) := by
  have bound := n.1.toNat_lt
  unfold nonZero u32TryFrom
  constructor
  · intro found
    obtain ⟨m,ranged,rest⟩ := Option.bind_eq_some_iff.mp found
    split at ranged
    · rename_i fits
      split at rest
      · cases ranged
        cases rest
        simp only [UInt32.toNat_ofNat']
        omega
      · cases rest
    · cases ranged
  · rintro rfl
    have fits : (0 : Int) ≤ (n.1.toNat : Int) ∧ (n.1.toNat : Int) < 2^32 := by omega
    rw [if_pos fits,Option.bind_some]
    have same : UInt32.ofNat (n.1.toNat : Int).toNat = n.1 := by simp
    rw [same,dif_pos n.2]

theorem kindFromWord_entryLimit : kindFromWord word = some .entryLimit ↔ word = "entry_limit" := by
  unfold kindFromWord
  split_ifs <;> simp_all

section

inductive StoreTable where
  | profile | setting | worksheet
  deriving DecidableEq, Repr

inductive RejectReason where
  | unknownSetting
  | unknownKind (kind : String)
  | malformed
  | refused (error : SettingError)
  | undecodable (detail : String)
  deriving DecidableEq, Repr

structure RejectedRow where
  table : StoreTable
  key : String
  reason : RejectReason
  deriving DecidableEq, Repr

structure Loaded (α : Type) where
  value : α
  rejected : List RejectedRow

variable {mobile : Bool} {level : Level}

def loadRow (loaded : Loaded (SettingsLayer mobile level)) (row : StoredSetting) : Loaded (SettingsLayer mobile level) :=
  let reject (reason : RejectReason) := { loaded with rejected := loaded.rejected ++ [⟨.setting,row.key,reason⟩] }
  match SettingId.fromStorageKey mobile row.key with
  | none => reject .unknownSetting
  | some id =>
    match decodeValue row.kind row.int row.text with
    | .error (.unknownKind kind) => reject (.unknownKind kind)
    | .error .malformed => reject .malformed
    | .ok value =>
      match loaded.value.setValue id value with
      | .ok layer => { loaded with value := layer }
      | .error error => reject (.refused error)

/-- The texts of the rows are UTF-8: `load_layer` fails as a whole, with the engine's error, on one
that is not. -/
def loadLayer (mobile : Bool) (level : Level) (rows : List StoredSetting) : Loaded (SettingsLayer mobile level) :=
  rows.foldl loadRow ⟨.new,[]⟩

def applicationSettings (mobile : Bool) (table : SettingTable) : Loaded (SettingsLayer mobile .application) :=
  loadLayer mobile .application (selectSettings table .application [])

def accepted (mobile : Bool) (level : Level) (id : SettingId) (row : StoredSetting) : Option SettingValue :=
  match decodeValue row.kind row.int row.text with
  | .error _ => none
  | .ok value => if (id.descriptor mobile).check level value = .ok () then some value else none

theorem loadRow_other
    (other : row.key ≠ id.storageKey mobile) : (loadRow loaded row).value.values id = loaded.value.values id := by
  unfold loadRow
  split
  · rfl
  · rename_i own found
    have apart : id ≠ own := by
      rintro rfl
      exact other (SettingId.fromStorageKey_eq_some mobile |>.mp found).symm
    split
    · rfl
    · rfl
    · split
      · rename_i set
        rw [(SettingsLayer.setValue_ok set).2,Function.update_of_ne apart]
      · rfl

theorem loadRow_own {loaded : Loaded (SettingsLayer mobile level)} (own : row.key = id.storageKey mobile) :
    (loadRow loaded row).value.values id = (accepted mobile level id row).or (loaded.value.values id) := by
  have found := (SettingId.fromStorageKey_eq_some mobile).mpr own.symm
  unfold loadRow accepted
  simp only [found]
  split
  · rename_i decoded
    simp [decoded]
  · rename_i decoded
    simp [decoded]
  · rename_i value decoded
    simp only [decoded]
    split
    · rename_i set
      obtain ⟨passed,next⟩ := SettingsLayer.setValue_ok set
      simp [passed,next]
    · rename_i refused
      simp [SettingsLayer.setValue_error refused]

theorem foldl_loadRow {rows : List StoredSetting} (unique : (rows.map StoredSetting.key).Nodup)
    {loaded : Loaded (SettingsLayer mobile level)} (unset : loaded.value.values id = none) (value : SettingValue) :
    (rows.foldl loadRow loaded).value.values id = some value ↔
      ∃ row ∈ rows, row.key = id.storageKey mobile ∧ accepted mobile level id row = some value := by
  induction rows generalizing loaded with
  | nil => simp [unset]
  | cons row rows ih =>
    rw [map_cons,nodup_cons] at unique
    rw [foldl_cons]
    by_cases own : row.key = id.storageKey mobile
    · -- No later row has this key, so what this one gave stays.
      have stays : ∀ (rest : List StoredSetting) (loaded : Loaded (SettingsLayer mobile level)),
          (∀ other ∈ rest, other.key ≠ id.storageKey mobile) →
          (rest.foldl loadRow loaded).value.values id = loaded.value.values id := by
        intro rest
        induction rest with
        | nil => intros; rfl
        | cons other rest ih' =>
          intro loaded absent
          rw [foldl_cons,ih' _ fun later member => absent later (.tail _ member),
            loadRow_other (absent other mem_cons_self)]
      have absent : ∀ other ∈ rows, other.key ≠ id.storageKey mobile := fun other member same =>
        unique.1 (mem_map.mpr ⟨other,member,same.trans own.symm⟩)
      rw [stays rows _ absent,loadRow_own own,unset,Option.or_none]
      constructor
      · exact fun took => ⟨row,mem_cons_self,own,took⟩
      · rintro ⟨other,member,same,took⟩
        rcases mem_cons.mp member with rfl | later
        · exact took
        · exact absurd same (absent other later)
    · rw [ih unique.2 ((loadRow_other own).trans unset)]
      constructor
      · rintro ⟨other,member,rest⟩
        exact ⟨other,.tail _ member,rest⟩
      · rintro ⟨other,member,same,took⟩
        rcases mem_cons.mp member with rfl | later
        · exact absurd same own
        · exact ⟨other,later,same,took⟩

end

variable (mobile : Bool)

def EntryLimit.entries : EntryLimit → Option UInt32
  | .count n => some n.1
  | .unlimited => none

theorem default_entries : defaultMaxEntries.entries = some 1000 := rfl

def historyKey : String := SettingId.historyMaxEntriesPerProfile.storageKey mobile

/-- `current_max_entries`: the integer of the stored row as it is; `none` does not trim. -/
def currentMaxEntries (table : SettingTable) : Option UInt32 :=
  match table.lookup (.application,[],historyKey mobile) with
  | none => defaultMaxEntries.entries
  | some row => row.int.map fun value => (u32TryFrom value).getD 4294967295

def effectiveMaxEntries (table : SettingTable) : Option UInt32 :=
  (ResolveContext.new.withApplication (applicationSettings mobile table).value).resolveMaxEntries.value.entries

theorem selected_unique (table : SettingTable) :
    ((selectSettings table .application []).map StoredSetting.key).Nodup := by
  have perm := (perm_insertionSort (fun a b : StoredSetting => a.key ≤ b.key)
    ((table.rows.filter fun row => row.scope == .application && lower row.scopeId == lower []).map
      SettingRow.toStoredSetting)).map StoredSetting.key
  refine perm.nodup_iff.mpr ?_
  rw [map_map]
  have unique := table.unique.sublist
    ((filter_sublist (p := fun row : SettingRow => row.scope == .application && lower row.scopeId == lower [])).map _)
  refine List.Nodup.of_map (fun key => (ScopeWord.application,([] : Text),key)) ?_
  rw [map_map]
  refine (map_congr_left fun row member => ?_) ▸ unique
  obtain ⟨word,blank⟩ : row.scope = .application ∧ lower row.scopeId = [] := by
    simpa [lower] using (mem_filter.mp member).2
  simp [SettingRow.primaryKey,word,blank]

theorem mem_selected : stored ∈ selectSettings table .application [] ↔
      ∃ row, table.lookup (.application,[],stored.key) = some row ∧ row.toStoredSetting = stored := by
  simp only [selectSettings,mem_insertionSort,mem_map,mem_filter,Bool.and_eq_true,beq_iff_eq]
  constructor
  · rintro ⟨row,⟨member,word,blank⟩,rfl⟩
    have found := Keyed.mem_iff.mp member
    rw [SettingRow.primaryKey,word,blank] at found
    exact ⟨row,found,rfl⟩
  · rintro ⟨row,found,rfl⟩
    have key := Keyed.key_of_lookup found
    simp only [SettingRow.primaryKey,Prod.mk.injEq] at key
    exact ⟨row,⟨Keyed.mem_of_lookup found,key.1,by simpa [lower] using key.2.1⟩,rfl⟩

theorem application_values (table : SettingTable) (id : SettingId) :
    (applicationSettings mobile table).value.values id =
      (table.lookup (.application,[],id.storageKey mobile)).bind fun row =>
        accepted mobile .application id row.toStoredSetting := by
  refine Option.ext fun value => ?_
  refine (foldl_loadRow (selected_unique table) rfl value).trans ?_
  rw [Option.bind_eq_some_iff]
  constructor
  · rintro ⟨stored,member,own,took⟩
    obtain ⟨row,found,rfl⟩ := mem_selected.mp member
    exact ⟨row,own ▸ found,took⟩
  · rintro ⟨row,found,took⟩
    have own : row.key = id.storageKey mobile := congrArg (·.2.2) (Keyed.key_of_lookup found)
    exact ⟨row.toStoredSetting,mem_selected.mpr ⟨row,own ▸ found,rfl⟩,own,took⟩

/-- A row that the loader takes for the limit of the history. -/
def Acceptable (row : StoredSetting) : Prop :=
  row.kind = "entry_limit" ∧ row.text = none ∧ ∀ value, row.int = some value → 1 ≤ value ∧ value ≤ 1000000

theorem Acceptable.stored (fine : Acceptable row) :
    ∃ limit : EntryLimit, row.int = limit.entries.map fun n => (n.toNat : Int) := by
  cases held : row.int with
  | none => exact ⟨.unlimited,rfl⟩
  | some value =>
    obtain ⟨low,high⟩ := fine.2.2 value held
    have same : ((UInt32.ofNat value.toNat).toNat : Int) = value := by
      rw [UInt32.toNat_ofNat',Nat.mod_eq_of_lt (by omega)]
      omega
    have nonzero : UInt32.ofNat value.toNat ≠ 0 := by
      intro zero
      rw [zero] at same
      simp at same
      omega
    exact ⟨.count ⟨_,nonzero⟩,congrArg some same.symm⟩

theorem check_limit (limit : EntryLimit) :
    (SettingId.historyMaxEntriesPerProfile.descriptor mobile).check .application (.entryLimit limit) = .ok () ↔
      ∀ count, limit = .count count → 1 ≤ count.1.toNat ∧ count.1.toNat ≤ 1000000 := by
  rw [SettingDescriptor.check_eq_ok]
  cases limit with
  | unlimited => simp [SettingId.descriptor,SettingDescriptor.checkValue,SettingDescriptor.number,SettingValue.kind,
      LevelSet.contains,LevelSet.application,LevelSet.applicationBit]
  | count count =>
    simp [SettingId.descriptor,SettingDescriptor.checkValue,SettingDescriptor.number,SettingValue.kind,
      LevelSet.contains,LevelSet.application,LevelSet.applicationBit,UInt32.lt_iff_toNat_lt]
    omega

theorem elim_ok {number : Option α} {make : α → SettingValue} (kind : ∀ n, (make n).kind = known)
    (decoded : number.elim (Except.error DecodeValueError.malformed) (fun n => .ok (make n)) = .ok value) : known = value.kind := by
  cases number with
  | none => cases decoded
  | some n =>
    cases decoded
    exact (kind n).symm

theorem decodeValue_word {kind : String} {int : Option Int}
    (decoded : decodeValue kind int text = .ok value) : kindFromWord kind = some value.kind ∧ text = none := by
  unfold decodeValue at decoded
  split at decoded
  · cases decoded
  · rename_i known word
    rw [word,Option.some.injEq]
    split at decoded
    · cases decoded
    · rename_i blank
      refine ⟨?_,by simpa using blank⟩
      split at decoded
      · split_ifs at decoded <;> cases decoded <;> rfl
      all_goals first
        | exact elim_ok (fun _ => rfl) decoded
        | exact congrArg SettingValue.kind (Except.ok.inj decoded)
        | cases decoded

theorem decode_limit :
    decodeValue "entry_limit" int none = .ok (.entryLimit limit) ↔ int = limit.entries.map fun n => (n.toNat : Int) := by
  have word : kindFromWord "entry_limit" = some .entryLimit := kindFromWord_entryLimit.mpr rfl
  unfold decodeValue
  simp only [word,Option.isSome_none,Bool.false_eq_true,↓reduceIte]
  cases int with
  | none => cases limit <;> simp [EntryLimit.entries]
  | some value =>
    cases found : nonZero value with
    | none =>
      cases limit with
      | unlimited => simp [EntryLimit.entries,found]
      | count count =>
        have other : value ≠ (count.1.toNat : Int) := fun same => by simp [nonZero_eq_some.mpr same] at found
        simpa [EntryLimit.entries,found] using other
    | some n =>
      have same := nonZero_eq_some.mp found
      cases limit with
      | unlimited => simp [EntryLimit.entries,found]
      | count count =>
        simp [EntryLimit.entries,found]
        rw [same,Subtype.ext_iff,← UInt32.toNat_inj]
        omega

theorem accepted_limit : accepted mobile .application .historyMaxEntriesPerProfile row = some value ↔
      Acceptable row ∧ ∃ limit, value = .entryLimit limit ∧ row.int = limit.entries.map fun n => (n.toNat : Int) := by
  constructor
  · intro took
    unfold accepted at took
    split at took
    · cases took
    · rename_i held decoded
      split at took
      · rename_i passed
        cases took
        obtain ⟨word,blank⟩ := decodeValue_word decoded
        have kind : value.kind = .entryLimit := by
          by_contra other
          have := (SettingDescriptor.check_eq_ok.mp passed).2
          simp [SettingDescriptor.checkValue,SettingId.descriptor,other] at this
        obtain ⟨limit,rfl⟩ : ∃ limit, value = .entryLimit limit := by
          cases value <;> first | exact ⟨_,rfl⟩ | cases kind
        have named := kindFromWord_entryLimit.mp word
        rw [named,blank,decode_limit] at decoded
        refine ⟨⟨named,blank,fun number stored => ?_⟩,limit,rfl,decoded⟩
        cases limit with
        | unlimited => simp [decoded,EntryLimit.entries] at stored
        | count count =>
          have bounds := (check_limit mobile _).mp passed count rfl
          have : number = (count.1.toNat : Int) := by simpa [decoded,EntryLimit.entries] using stored.symm
          omega
      · cases took
  · rintro ⟨⟨named,blank,bounds⟩,limit,rfl,stored⟩
    have passed : (SettingId.historyMaxEntriesPerProfile.descriptor mobile).check .application (.entryLimit limit) = .ok () := by
      refine (check_limit mobile limit).mpr fun count same => ?_
      have := bounds count.1.toNat (by simp [stored,same,EntryLimit.entries])
      omega
    have decoded : decodeValue row.kind row.int row.text = .ok (.entryLimit limit) := by
      rw [named,blank]
      exact decode_limit.mpr stored
    simp [accepted,decoded,passed]

theorem effective_eq (table : SettingTable) :
    effectiveMaxEntries mobile table = match (applicationSettings mobile table).value.values .historyMaxEntriesPerProfile with
      | some (.entryLimit limit) => limit.entries
      | _ => defaultMaxEntries.entries := by
  rw [effectiveMaxEntries,ResolveContext.resolveMaxEntries]
  simp only [ResolveContext.resolveValue_application]
  cases held : (applicationSettings mobile table).value.values .historyMaxEntriesPerProfile with
  | none => rfl
  | some value => cases value <;> rfl

theorem u32TryFrom_toNat (n : UInt32) : u32TryFrom (n.toNat : Int) = some n := by
  have := n.toNat_lt
  rw [u32TryFrom,if_pos (by omega)]
  simp

theorem trims_to_stored (limit : EntryLimit) :
    (limit.entries.map fun n => (n.toNat : Int)).map (fun value => (u32TryFrom value).getD 4294967295) = limit.entries := by
  cases limit.entries with
  | none => rfl
  | some n => rw [Option.map_some,Option.map_some,u32TryFrom_toNat,Option.getD_some]

theorem trims_to_default : (u32TryFrom value).getD 4294967295 = 1000 ↔ value = 1000 := by
  unfold u32TryFrom
  split
  · rename_i fits
    simp only [Option.getD_some,← UInt32.toNat_inj,UInt32.toNat_ofNat']
    have small : value.toNat < 2^32 := by omega
    rw [Nat.mod_eq_of_lt small]
    simp
    omega
  · simp only [Option.getD_none]
    constructor
    · exact fun same => absurd same (by decide)
    · omega

theorem currentMaxEntries_eq_iff (table : SettingTable) :
    currentMaxEntries mobile table = effectiveMaxEntries mobile table ↔
      ∀ row ∈ table.rows, row.scope = .application → row.key = historyKey mobile →
        Acceptable row.toStoredSetting ∨ row.int = some 1000 := by
  have only : ∀ row ∈ table.rows, row.scope = .application → row.key = historyKey mobile →
      table.lookup (.application,[],historyKey mobile) = some row := by
    intro row member word own
    have found := Keyed.mem_iff.mp member
    rwa [SettingRow.primaryKey,word,row.unnamed.mp word,own] at found
  have held := application_values mobile table .historyMaxEntriesPerProfile
  rw [show SettingId.historyMaxEntriesPerProfile.storageKey mobile = historyKey mobile from rfl] at held
  cases found : table.lookup (.application,[],historyKey mobile) with
  | none =>
    refine iff_of_true ?_ fun row member word own => ?_
    · rw [effective_eq,held,currentMaxEntries,found,Option.bind_none]
    · rw [only row member word own] at found
      cases found
  | some row =>
    have same : (∀ other ∈ table.rows, other.scope = .application → other.key = historyKey mobile →
        Acceptable other.toStoredSetting ∨ other.int = some 1000) ↔
        Acceptable row.toStoredSetting ∨ row.int = some 1000 := by
      constructor
      · intro each
        have key := Keyed.key_of_lookup found
        simp only [SettingRow.primaryKey,Prod.mk.injEq] at key
        exact each row (Keyed.mem_of_lookup found) key.1 key.2.2
      · intro one other member word own
        rw [only other member word own] at found
        cases found
        exact one
    have current : currentMaxEntries mobile table = row.int.map fun value => (u32TryFrom value).getD 4294967295 := by
      rw [currentMaxEntries,found]
    rw [found,Option.bind_some] at held
    rw [same,effective_eq,held,current]
    cases took : accepted mobile .application .historyMaxEntriesPerProfile row.toStoredSetting with
    | some value =>
      obtain ⟨fine,limit,rfl,stored⟩ := (accepted_limit mobile).mp took
      refine iff_of_true ?_ (.inl fine)
      rw [stored]
      exact trims_to_stored limit
    | none =>
      have refused : ¬ Acceptable row.toStoredSetting := by
        intro fine
        obtain ⟨limit,stored⟩ := fine.stored
        rw [(accepted_limit mobile).mpr ⟨fine,limit,rfl,stored⟩] at took
        cases took
      rw [default_entries]
      cases row.int with
      | none => simp [refused]
      | some value => simp [refused,trims_to_default]

/-- The history is trimmed to the limit the application shows exactly if the stored row, where
there is one, is one that the loader takes, or by chance holds the number of the default. -/
theorem trim_limit_is_effective_iff (table : SettingTable) :
    currentMaxEntries mobile table = effectiveMaxEntries mobile table ↔
      ∀ row ∈ table.rows, row.scope = .application → row.key = "history.max_entries_per_profile" →
        (row.kind = "entry_limit" ∧ row.text = none ∧ ∀ value, row.int = some value → 1 ≤ value ∧ value ≤ 1000000) ∨
          row.int = some 1000 :=
  currentMaxEntries_eq_iff mobile table

def zeroRow : SettingRow where
  key := "history.max_entries_per_profile"
  kind := "entry_limit"
  int := some 0
  text := none
  single := .inr rfl
  scope := .application
  scopeId := []
  updatedAt := 0
  unnamed := iff_of_true rfl rfl

def zeroLimit : SettingTable := Keyed.empty.insert zeroRow

/-- Every entry is trimmed, the new one as well, where the application shows the default. -/
theorem zero_limit_trims_everything :
    currentMaxEntries false zeroLimit = some 0 ∧ effectiveMaxEntries false zeroLimit = some 1000 := by
  have found : zeroLimit.lookup (.application,[],historyKey false) = some zeroRow := by
    rw [zeroLimit,Keyed.lookup_insert]
    rfl
  have refused : accepted false .application .historyMaxEntriesPerProfile zeroRow.toStoredSetting = none := rfl
  have held := application_values false zeroLimit .historyMaxEntriesPerProfile
  rw [show SettingId.historyMaxEntriesPerProfile.storageKey false = historyKey false from rfl,found,Option.bind_some,
    refused] at held
  constructor
  · rw [currentMaxEntries,found]
    rfl
  · rw [effective_eq,held,default_entries]

end Reldex.Workspace
