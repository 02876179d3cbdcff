import Reldex.Text
import Mathlib.Data.List.Sort
import Mathlib.Data.List.ReduceOption

/-! The settings: what each one holds, its default and the levels it may be set at; one
level's values; and the value in force, `worksheet ?? profile ?? application ?? built-in`. -/
namespace Reldex.Workspace
variable {id : SettingId}

inductive Level where
  | builtIn | application | profile | worksheet
  deriving DecidableEq, Repr

/-- The levels a setting may be set at, one bit each. -/
structure LevelSet where
  bits : UInt8
  deriving DecidableEq, Repr

namespace LevelSet

def applicationBit : UInt8 := 1
def profileBit : UInt8 := 2
def worksheetBit : UInt8 := 4

def application : LevelSet := ⟨applicationBit⟩
def applicationProfile : LevelSet := ⟨applicationBit ||| profileBit⟩
def all : LevelSet := ⟨applicationBit ||| profileBit ||| worksheetBit⟩

def contains (levels : LevelSet) : Level → Bool
  | .builtIn => false
  | .application => levels.bits &&& applicationBit != 0
  | .profile => levels.bits &&& profileBit != 0
  | .worksheet => levels.bits &&& worksheetBit != 0

end LevelSet

abbrev NonZeroU32 := { n : UInt32 // n ≠ 0 }

theorem one_ne_zero32 : (1 : UInt32) ≠ 0 := by decide

/-- A constant that is not zero; the source refuses to compile `nz(0)`. -/
def nz (n : UInt32) : NonZeroU32 := if nonzero : n ≠ 0 then ⟨n,nonzero⟩ else ⟨1,one_ne_zero32⟩

inductive TimeLimit where
  | seconds (seconds : NonZeroU32)
  | noLimit
  deriving DecidableEq, Repr

inductive ByteLimit where
  | bytes (bytes : NonZeroU32)
  | unlimited
  deriving DecidableEq, Repr

inductive EntryLimit where
  | count (count : NonZeroU32)
  | unlimited
  deriving DecidableEq, Repr

inductive ValueKind where
  | bool | timeLimit | count | byteLimit | entryLimit
  deriving DecidableEq, Repr

inductive SettingValue where
  | bool (on : Bool)
  | timeLimit (limit : TimeLimit)
  | count (count : UInt32)
  | byteLimit (limit : ByteLimit)
  | entryLimit (limit : EntryLimit)
  deriving DecidableEq, Repr

def SettingValue.kind : SettingValue → ValueKind
  | .bool _ => .bool
  | .timeLimit _ => .timeLimit
  | .count _ => .count
  | .byteLimit _ => .byteLimit
  | .entryLimit _ => .entryLimit

structure Bounds where
  min : UInt32
  max : UInt32
  deriving DecidableEq, Repr

inductive Unlimited where
  | notAllowed | allowed
  deriving DecidableEq, Repr

inductive SettingId where
  | connectTimeout | rewriteTriggerDdl | statementTimeLimit | fetchRows | fetchesInFlight
  | serverOutputEnabled | serverOutputBuffer | historyMaxEntriesPerProfile | resultsMaxRows
  | resultsMaxBytes | resultsCloseCursorAtLimit | resultsRoundTripBytes
  deriving DecidableEq, Repr

structure SettingDescriptor where
  id : SettingId
  storageKey : String
  kind : ValueKind
  default : SettingValue
  levels : LevelSet
  bounds : Option Bounds
  unlimited : Unlimited

inductive SettingError where
  | levelNotAllowed (setting : SettingId) (level : Level)
  | kindMismatch (setting : SettingId) (expected found : ValueKind)
  | outOfBounds (setting : SettingId) (value : UInt32) (bounds : Bounds)
  | unlimitedNotAllowed (setting : SettingId)
  deriving DecidableEq, Repr

namespace SettingDescriptor

def number : SettingValue → Except Unit (Option UInt32)
  | .bool _ => .ok none
  | .count count => .ok (some count)
  | .timeLimit (.seconds seconds) => .ok (some seconds.1)
  | .byteLimit (.bytes bytes) => .ok (some bytes.1)
  | .entryLimit (.count count) => .ok (some count.1)
  | .timeLimit .noLimit | .byteLimit .unlimited | .entryLimit .unlimited => .error ()

def checkValue (descriptor : SettingDescriptor) (value : SettingValue) : Except SettingError Unit :=
  if value.kind ≠ descriptor.kind then .error (.kindMismatch descriptor.id descriptor.kind value.kind)
  else match number value with
    | .error () =>
      match descriptor.unlimited with
      | .allowed => .ok ()
      | .notAllowed => .error (.unlimitedNotAllowed descriptor.id)
    | .ok number =>
      match number, descriptor.bounds with
      | some number, some bounds =>
        if number < bounds.min || number > bounds.max then .error (.outOfBounds descriptor.id number bounds)
        else .ok ()
      | _, _ => .ok ()

def check (descriptor : SettingDescriptor) (level : Level) (value : SettingValue) : Except SettingError Unit :=
  if !descriptor.levels.contains level then .error (.levelNotAllowed descriptor.id level)
  else descriptor.checkValue value

theorem check_eq_ok {descriptor : SettingDescriptor} : descriptor.check level value = .ok () ↔
      descriptor.levels.contains level = true ∧ descriptor.checkValue value = .ok () := by
  unfold check
  cases settable : descriptor.levels.contains level <;> simp

end SettingDescriptor

section

-- The caps of a result have smaller defaults on a mobile system.
variable (mobile : Bool)

def kib : UInt32 := 1024
def mib : UInt32 := 1024 * 1024

def SettingId.descriptor : SettingId → SettingDescriptor
  | .connectTimeout => ⟨.connectTimeout,"connection.connect_timeout",.timeLimit,
      .timeLimit (.seconds (nz 15)),.applicationProfile,some ⟨1,3600⟩,.allowed⟩
  | .rewriteTriggerDdl => ⟨.rewriteTriggerDdl,"connection.rewrite_trigger_ddl",.bool,
      .bool true,.applicationProfile,none,.notAllowed⟩
  | .statementTimeLimit => ⟨.statementTimeLimit,"execution.statement_time_limit",.timeLimit,
      .timeLimit (.seconds (nz 600)),.all,some ⟨1,86400⟩,.allowed⟩
  | .fetchRows => ⟨.fetchRows,"results.fetch_rows",.count,.count 1000,.all,some ⟨1,100000⟩,.notAllowed⟩
  | .fetchesInFlight => ⟨.fetchesInFlight,"results.fetches_in_flight",.count,.count 2,.application,some ⟨1,8⟩,.notAllowed⟩
  | .serverOutputEnabled => ⟨.serverOutputEnabled,"server_output.enabled",.bool,.bool false,.all,none,.notAllowed⟩
  | .serverOutputBuffer => ⟨.serverOutputBuffer,"server_output.buffer",.byteLimit,
      .byteLimit (.bytes (nz 1000000)),.all,some ⟨2000,1073741824⟩,.allowed⟩
  | .historyMaxEntriesPerProfile => ⟨.historyMaxEntriesPerProfile,"history.max_entries_per_profile",.entryLimit,
      .entryLimit (.count (nz 1000)),.application,some ⟨1,1000000⟩,.allowed⟩
  | .resultsMaxRows => ⟨.resultsMaxRows,"results.max_rows",.entryLimit,
      .entryLimit (.count (nz (if mobile then 100000 else 1000000))),.all,
      some ⟨1,2147483647⟩,.allowed⟩
  | .resultsMaxBytes => ⟨.resultsMaxBytes,"results.max_bytes",.byteLimit,
      .byteLimit (.bytes (nz (if mobile then 64 * mib else 512 * mib))),.all,
      some ⟨16 * mib,4294967295⟩,.allowed⟩
  | .resultsCloseCursorAtLimit => ⟨.resultsCloseCursorAtLimit,"results.close_cursor_at_limit",.bool,
      .bool false,.all,none,.notAllowed⟩
  | .resultsRoundTripBytes => ⟨.resultsRoundTripBytes,"results.round_trip_bytes",.byteLimit,
      .byteLimit (.bytes (nz (192 * kib))),.all,some ⟨16 * kib,4 * mib⟩,.notAllowed⟩

def SettingId.all : List SettingId :=
  [.connectTimeout,.rewriteTriggerDdl,.statementTimeLimit,.fetchRows,.fetchesInFlight,.serverOutputEnabled,
    .serverOutputBuffer,.historyMaxEntriesPerProfile,.resultsMaxRows,.resultsMaxBytes,.resultsCloseCursorAtLimit,
    .resultsRoundTripBytes]

def SettingId.storageKey (id : SettingId) : String := (id.descriptor mobile).storageKey
def SettingId.fromStorageKey (key : String) : Option SettingId := SettingId.all.find? (·.storageKey mobile == key)

theorem SettingId.fromStorageKey_eq_some :
    SettingId.fromStorageKey mobile key = some id ↔ id.storageKey mobile = key := by
  constructor
  · intro found
    simpa using List.find?_some found
  · rintro rfl
    cases id <;> rfl

/-- Every built-in default passes its own check. -/
theorem SettingId.default_passes (id : SettingId) :
    (id.descriptor mobile).checkValue (id.descriptor mobile).default = .ok () := by
  cases mobile <;> cases id <;> rfl

end

/-- The values set at one level. Each passed its setting's check for that level. -/
structure SettingsLayer (mobile : Bool) (level : Level) where
  values : SettingId → Option SettingValue
  checked : ∀ id value, values id = some value → (id.descriptor mobile).check level value = .ok ()

namespace SettingsLayer
variable {mobile : Bool} {level : Level}

def new : SettingsLayer mobile level := ⟨fun _ => none,by simp⟩
def getValue (layer : SettingsLayer mobile level) (id : SettingId) : Option SettingValue := layer.values id

theorem inserted_checked (layer : SettingsLayer mobile level)
    (passed : (id.descriptor mobile).check level value = .ok ()) (other : SettingId) (held : SettingValue)
    (found : Function.update layer.values id (some value) other = some held) :
    (other.descriptor mobile).check level held = .ok () := by
  by_cases same : other = id
  · subst same
    rw [Function.update_self,Option.some.injEq] at found
    exact found ▸ passed
  · rw [Function.update_of_ne same] at found
    exact layer.checked other held found

def setValue (layer : SettingsLayer mobile level) (id : SettingId) (value : SettingValue) :
    Except SettingError (SettingsLayer mobile level) :=
  match passed : (id.descriptor mobile).check level value with
  | .error error => .error error
  | .ok () => .ok ⟨Function.update layer.values id (some value),layer.inserted_checked passed⟩

theorem setValue_ok {layer next : SettingsLayer mobile level} (set : layer.setValue id value = .ok next) :
    (id.descriptor mobile).check level value = .ok () ∧ next.values = Function.update layer.values id (some value) := by
  unfold setValue at set
  split at set
  · cases set
  · rename_i passed
    cases set
    exact ⟨passed,rfl⟩

theorem setValue_error {layer : SettingsLayer mobile level}
    (refused : layer.setValue id value = .error error) : (id.descriptor mobile).check level value = .error error := by
  unfold setValue at refused
  split at refused
  · rename_i failed
    cases refused
    exact failed
  · cases refused

end SettingsLayer

structure Resolved (α : Type) where
  value : α
  source : Level
  deriving DecidableEq, Repr

structure ResolveContext (mobile : Bool) where
  application : Option (SettingsLayer mobile .application)
  profile : Option (SettingsLayer mobile .profile)
  worksheet : Option (SettingsLayer mobile .worksheet)

namespace ResolveContext
variable {mobile : Bool}

def new : ResolveContext mobile := ⟨none,none,none⟩

def withApplication (context : ResolveContext mobile) (layer : SettingsLayer mobile .application) : ResolveContext mobile :=
  { context with application := some layer }

def layerValue (layer : Option (SettingsLayer mobile level)) (id : SettingId) : Option (Level × SettingValue) :=
  layer.bind fun layer => (layer.getValue id).map fun value => (level,value)

def resolveValue (context : ResolveContext mobile) (id : SettingId) : Resolved SettingValue :=
  let descriptor := id.descriptor mobile
  let candidates := [layerValue context.worksheet id,layerValue context.profile id,layerValue context.application id]
  match candidates.reduceOption.find? fun (level,value) =>
      descriptor.levels.contains level && (descriptor.checkValue value).isOk with
  | some (level,value) => ⟨value,level⟩
  | none => ⟨descriptor.default,.builtIn⟩

/-- With only an application layer, its value is in force if it has one: nothing else was let in. -/
theorem resolveValue_application (layer : SettingsLayer mobile .application) (id : SettingId) :
    ((new.withApplication layer).resolveValue id).value = (layer.values id).getD (id.descriptor mobile).default := by
  cases held : layer.values id with
  | none => simp [resolveValue,withApplication,new,layerValue,SettingsLayer.getValue,held]
  | some value =>
    obtain ⟨settable,passed⟩ := SettingDescriptor.check_eq_ok.mp (layer.checked id value held)
    have fine : ((id.descriptor mobile).checkValue value).isOk = true := by rw [passed]; rfl
    simp [resolveValue,withApplication,new,layerValue,SettingsLayer.getValue,held,settable,fine]

end ResolveContext

/-- `HISTORY_MAX_ENTRIES_PER_PROFILE.default_value()`. -/
def defaultMaxEntries : EntryLimit := .count (nz 1000)

/-- `resolve(HISTORY_MAX_ENTRIES_PER_PROFILE)`: a value of another kind cannot be in a layer;
the built-in default would be the answer. -/
def ResolveContext.resolveMaxEntries (context : ResolveContext mobile) : Resolved EntryLimit :=
  let resolved := context.resolveValue .historyMaxEntriesPerProfile
  match resolved.value with
  | .entryLimit limit => ⟨limit,resolved.source⟩
  | _ => ⟨defaultMaxEntries,.builtIn⟩

end Reldex.Workspace
