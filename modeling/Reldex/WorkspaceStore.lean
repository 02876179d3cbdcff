import Reldex.SettingsTable
import Reldex.Transactions

/-! The workspace store: profiles, settings, worksheets, the layout and the query history in
one SQLite file, and the operations on them, each one transaction. What SQLite does of its own
(foreign keys, `AUTOINCREMENT`, rollback) stands in the statements. -/
namespace Reldex.Workspace

/-- 128 bits as hexadecimal digits, the most significant first. -/
structure Uuid where
  digits : List (Fin 16)
  sized : digits.length = 32
  deriving DecidableEq

def Uuid.isNil (uuid : Uuid) : Bool := uuid.digits.all (· == 0)

/-- The canonical form, lowercase with hyphens. -/
def Uuid.hyphenated (uuid : Uuid) : Text :=
  let hex := uuid.digits.map fun digit => Nat.digitChar digit.val
  hex.take 8 ++ '-' :: ((hex.drop 8).take 4 ++ '-' :: ((hex.drop 12).take 4 ++ '-' :: ((hex.drop 16).take 4 ++
    '-' :: hex.drop 20)))

structure ProfileId where
  uuid : Uuid
  notNil : uuid.isNil = false
  deriving DecidableEq

structure WorksheetId where
  uuid : Uuid
  notNil : uuid.isNil = false
  deriving DecidableEq

def ProfileId.toText (id : ProfileId) : Text := id.uuid.hyphenated
def WorksheetId.toText (id : WorksheetId) : Text := id.uuid.hyphenated

/-- What a profile holds beside its identity and its times, and how it is checked and written. -/
structure ProfileCodec where
  Details : Type
  Columns : Type
  Error : Type
  encode : Details → Except Error Columns

structure Profile (codec : ProfileCodec) where
  id : ProfileId
  details : codec.Details
  createdAt : Int
  modifiedAt : Int

structure ProfileRow (codec : ProfileCodec) where
  id : ProfileId
  columns : codec.Columns
  createdAt : Int
  modifiedAt : Int

inductive HistoryOutcome where
  | succeeded
  | failed (nativeCode : Option Int32)
  | cancelled
  | timedOut
  deriving DecidableEq

structure HistoryEntry where
  profile : ProfileId
  executedAt : Int
  statement : Text
  outcome : HistoryOutcome
  elapsedMs : UInt64
  rowCount : Option UInt64

structure HistoryRow where
  profile : ProfileId
  executedAt : Int
  statement : Text
  outcome : String
  nativeCode : Option Int
  elapsedMs : Int
  rowCount : Option Int
  known : outcome ∈ ["succeeded","failed","cancelled","timed_out"]
  coded : outcome = "failed" ∨ nativeCode = none
  deriving DecidableEq

structure HistoryMeta where
  profile : ProfileId
  count : Int

structure WorksheetState where
  title : Text
  text : Text
  caret : UInt32
  scroll : UInt32

structure Worksheet where
  id : WorksheetId
  profile : Option ProfileId
  state : WorksheetState
  tabOrder : UInt32
  createdAt : Int
  updatedAt : Int

structure WorksheetSettingRow extends StoredSetting where
  worksheet : WorksheetId
  updatedAt : Int

def WorksheetSettingRow.primaryKey (row : WorksheetSettingRow) : WorksheetId × String := (row.worksheet,row.key)

structure PaneSizes where
  objectBrowserWidth : Option UInt32
  resultPaneHeight : Option UInt32

structure WindowGeometry where
  x : Option Int32
  y : Option Int32
  width : Option UInt32
  height : Option UInt32
  maximized : Bool

structure Layout where
  activeWorksheet : Option WorksheetId
  activeProfile : Option ProfileId
  panes : PaneSizes
  window : WindowGeometry

structure LayoutRow extends Layout where
  updatedAt : Int

/-- The tables of schema version 4. `worksheet` keeps its rows as they are saved. -/
structure Db (codec : ProfileCodec) where
  profile : Keyed (@ProfileRow.id codec)
  setting : SettingTable
  worksheet : Keyed Worksheet.id
  worksheetSetting : Keyed WorksheetSettingRow.primaryKey
  layout : Option LayoutRow
  history : Numbered HistoryRow
  historyMeta : Keyed HistoryMeta.profile

def Db.empty : Db codec := ⟨.empty,.empty,.empty,.empty,none,.empty,.empty⟩

inductive HistoryError where
  | statementEmpty
  | statementTooLong (bytes max : Nat)
  deriving DecidableEq, Repr

inductive WorksheetError where
  | titleTooLong (chars max : Nat)
  | titleControlCharacter
  | textTooLong (bytes max : Nat)
  | caretOutOfBounds (caret : UInt32) (len : Nat)
  deriving DecidableEq, Repr

inductive StoreError (ε : Type) where
  | newerSchema (found supported : Nat)
  | notAReldexStore
  | incompleteHeader
  | schemaMismatch (detail : String)
  | readOnly
  | corrupt (detail : String)
  | busy
  | invalidProfile (error : ε)
  | invalidSetting (error : SettingError)
  | profileNotFound (profile : ProfileId)
  | profileExists (profile : ProfileId)
  | invalidHistory (error : HistoryError)
  | invalidWorksheet (error : WorksheetError)
  | worksheetNotFound (worksheet : WorksheetId)
  | invalidRow (detail : String)
  | sqlite (code : Int) (detail : String)

def maxStatementBytes : Nat := 1024 * 1024

def HistoryEntry.validate (entry : HistoryEntry) : Except HistoryError Unit :=
  -- A statement whose trimmed text is empty has only whitespace.
  if entry.statement.all isWhitespace then .error .statementEmpty
  else if len entry.statement > maxStatementBytes then
    .error (.statementTooLong (len entry.statement) maxStatementBytes)
  else .ok ()

def maxWorksheetTextBytes : Nat := 1024 * 1024
def maxTitleChars : Nat := 200

/-- `char::is_control`, the Unicode category Cc. -/
def isControl (c : Char) : Bool := c.toNat < 0x20 || (0x7f ≤ c.toNat && c.toNat < 0xa0)

def WorksheetState.validate (state : WorksheetState) : Except WorksheetError Unit :=
  if state.title.length > maxTitleChars then .error (.titleTooLong state.title.length maxTitleChars)
  else if state.title.any isControl then .error .titleControlCharacter
  else if len state.text > maxWorksheetTextBytes then .error (.textTooLong (len state.text) maxWorksheetTextBytes)
  else if state.caret.toNat > len state.text then .error (.caretOutOfBounds state.caret (len state.text))
  else .ok ()

section
variable {codec : ProfileCodec}

abbrev Failure (codec : ProfileCodec) := StoreError codec.Error

def foreignKeyFailed : Failure codec := .sqlite 787 "FOREIGN KEY constraint failed"
def diskFull : Failure codec := .sqlite 13 "database or disk is full"

namespace Db

/-- A reference that may be NULL. -/
def refersTo (db : Db codec) (profile : Option ProfileId) : Bool := profile.all db.profile.has

def insertProfile (db : Db codec) (row : ProfileRow codec) : Bool × Db codec :=
  (!db.profile.has row.id,{ db with profile := db.profile.insert row })

def replaceProfile (row : ProfileRow codec) (old : ProfileRow codec) : ProfileRow codec :=
  if old.id = row.id then { old with columns := row.columns, modifiedAt := row.modifiedAt } else old

theorem replaceProfile_id (row old : ProfileRow codec) : (replaceProfile row old).id = old.id := by
  unfold replaceProfile
  split <;> rfl

def updateProfile (db : Db codec) (row : ProfileRow codec) : Bool × Db codec :=
  (db.profile.has row.id,{ db with profile := db.profile.update (replaceProfile row) (replaceProfile_id row) })

def deleteProfileSettings (db : Db codec) (profile : ProfileId) : Db codec :=
  { db with setting := db.setting.delete fun row => row.scope == .profile && lower row.scopeId == lower profile.toText }

def forget (profile : ProfileId) (reference : Option ProfileId) : Option ProfileId :=
  if reference = some profile then none else reference

def forgetIn (profile : ProfileId) (row : Worksheet) : Worksheet := { row with profile := forget profile row.profile }

theorem forgetIn_id (profile : ProfileId) (row : Worksheet) : (forgetIn profile row).id = row.id := rfl

/-- `DELETE FROM profile`, with `ON DELETE CASCADE` of the history and `ON DELETE SET NULL` of the
worksheets and the layout that name it. -/
def deleteProfile (db : Db codec) (profile : ProfileId) : Bool × Db codec :=
  (db.profile.has profile,
    { db with
      profile := db.profile.delete (·.id == profile)
      history := db.history.delete (·.2.profile == profile)
      historyMeta := db.historyMeta.delete (·.profile == profile)
      worksheet := db.worksheet.update (forgetIn profile) (forgetIn_id profile)
      layout := db.layout.map fun row => { row with activeProfile := forget profile row.activeProfile } })

/-- `ON CONFLICT (id) DO UPDATE`: the creation time stays as first stored. -/
def replaceWorksheet (worksheet old : Worksheet) : Worksheet := { worksheet with id := old.id, createdAt := old.createdAt }

theorem replaceWorksheet_id (worksheet old : Worksheet) : (replaceWorksheet worksheet old).id = old.id := rfl

def upsertWorksheet (db : Db codec) (worksheet : Worksheet) : Except (Failure codec) (Unit × Db codec) :=
  if db.refersTo worksheet.profile then
    .ok ((),{ db with
      worksheet := db.worksheet.upsert worksheet (replaceWorksheet worksheet) (replaceWorksheet_id worksheet) })
  else .error foreignKeyFailed

/-- `DELETE FROM worksheet`, with `ON DELETE CASCADE` of its settings and `ON DELETE SET NULL` of the
layout that names it. -/
def deleteWorksheet (db : Db codec) (worksheet : WorksheetId) : Bool × Db codec :=
  (db.worksheet.has worksheet,
    { db with
      worksheet := db.worksheet.delete (·.id == worksheet)
      worksheetSetting := db.worksheetSetting.delete (·.worksheet == worksheet)
      layout := db.layout.map fun row =>
        { row with activeWorksheet := if row.activeWorksheet = some worksheet then none else row.activeWorksheet } })

def upsertLayout (db : Db codec) (row : LayoutRow) : Except (Failure codec) (Unit × Db codec) :=
  if row.activeWorksheet.all db.worksheet.has && db.refersTo row.activeProfile then .ok ((),{ db with layout := some row })
  else .error foreignKeyFailed

def replaceSetting (row old : SettingRow) : SettingRow :=
  { old with kind := row.kind, int := row.int, text := row.text, single := row.single, updatedAt := row.updatedAt }

theorem replaceSetting_key (row old : SettingRow) : (replaceSetting row old).primaryKey = old.primaryKey := rfl

def upsertSetting (db : Db codec) (row : SettingRow) : Db codec :=
  { db with setting := db.setting.upsert row (replaceSetting row) (replaceSetting_key row) }

def replaceWorksheetSetting (row old : WorksheetSettingRow) : WorksheetSettingRow :=
  { old with kind := row.kind, int := row.int, text := row.text, single := row.single, updatedAt := row.updatedAt }

theorem replaceWorksheetSetting_key (row old : WorksheetSettingRow) :
    (replaceWorksheetSetting row old).primaryKey = old.primaryKey := rfl

def upsertWorksheetSetting (db : Db codec) (row : WorksheetSettingRow) : Except (Failure codec) (Unit × Db codec) :=
  if db.worksheet.has row.worksheet then
    .ok ((),{ db with worksheetSetting :=
      db.worksheetSetting.upsert row (replaceWorksheetSetting row) (replaceWorksheetSetting_key row) })
  else .error foreignKeyFailed

/-- `INSERT INTO history`; `AUTOINCREMENT` refuses to go on after the largest rowid. -/
def insertHistory (db : Db codec) (row : HistoryRow) : Except (Failure codec) (Nat × Db codec) :=
  if !db.profile.has row.profile then .error foreignKeyFailed
  else if db.history.last + 1 < 2^63 then .ok (db.history.last + 1,{ db with history := db.history.insert row })
  else .error diskFull

def oneMore (row : HistoryMeta) : HistoryMeta := { row with count := row.count + 1 }

theorem oneMore_profile (row : HistoryMeta) : (oneMore row).profile = row.profile := rfl

/-- `INSERT INTO history_meta … ON CONFLICT DO UPDATE SET count = count + 1 RETURNING count`. -/
def countHistory (db : Db codec) (profile : ProfileId) : Except (Failure codec) (Int × Db codec) :=
  if !db.profile.has profile then .error foreignKeyFailed
  else .ok (((db.historyMeta.lookup profile).map fun row => row.count + 1).getD 1,
    { db with historyMeta := db.historyMeta.upsert ⟨profile,1⟩ oneMore oneMore_profile })

def deleteOldest (db : Db codec) (profile : ProfileId) (excess : Nat) : Db codec :=
  { db with history := db.history.delete fun row => row.1 ∈ db.history.oldest (·.profile == profile) excess }

def lessBy (profile : ProfileId) (excess : Int) (row : HistoryMeta) : HistoryMeta :=
  if row.profile = profile then { row with count := row.count - excess } else row

theorem lessBy_profile (profile : ProfileId) (excess : Int) (row : HistoryMeta) :
    (lessBy profile excess row).profile = row.profile := by
  unfold lessBy
  split <;> rfl

def lessCount (db : Db codec) (profile : ProfileId) (excess : Int) : Db codec :=
  { db with historyMeta := db.historyMeta.update (lessBy profile excess) (lessBy_profile profile excess) }

def deleteHistory (db : Db codec) (profile : ProfileId) : Nat × Db codec :=
  ((db.history.matching (·.profile == profile)).length,
    { db with history := db.history.delete (·.2.profile == profile) })

def deleteHistoryMeta (db : Db codec) (profile : ProfileId) : Db codec :=
  { db with historyMeta := db.historyMeta.delete (·.profile == profile) }

end Db
end

section
open Transaction
variable {codec : ProfileCodec}

abbrev Sql (codec : ProfileCodec) := Transaction (Db codec) (Failure codec)

/-- An operation of the store, with the failures SQLite is going to report. -/
abbrev Operation (codec : ProfileCodec) (α : Type) :=
  List (Option (Failure codec)) → Db codec → Except (Failure codec) α × Db codec

/-- What is checked before the transaction begins. -/
def checked (check : Except (Failure codec) α) (body : α → Sql codec β) : Operation codec β := fun faults db =>
  match check with
  | .error failure => (.error failure,db)
  | .ok value => immediate (body value) faults db

def requireProfile (profile : ProfileId) : Sql codec Unit := do
  let found ← query fun db => db.profile.has profile
  if found then pure () else throw (.profileNotFound profile)

def requireWorksheet (worksheet : WorksheetId) : Sql codec Unit := do
  let found ← query fun db => db.worksheet.has worksheet
  if found then pure () else throw (.worksheetNotFound worksheet)

def encoded (profile : Profile codec) : Except (Failure codec) (ProfileRow codec) :=
  match codec.encode profile.details with
  | .error error => .error (.invalidProfile error)
  | .ok columns => .ok ⟨profile.id,columns,profile.createdAt,profile.modifiedAt⟩

def insertProfile (profile : Profile codec) : Operation codec Unit :=
  checked (encoded profile) fun row => do
    let inserted ← statement fun db => .ok (db.insertProfile row)
    if inserted then pure () else throw (.profileExists profile.id)

def updateProfile (profile : Profile codec) : Operation codec Unit :=
  checked (encoded profile) fun row => do
    let updated ← statement fun db => .ok (db.updateProfile row)
    if updated then pure () else throw (.profileNotFound profile.id)

def deleteProfile (profile : ProfileId) : Operation codec Bool :=
  immediate do
    execute (·.deleteProfileSettings profile)
    statement fun db => .ok (db.deleteProfile profile)

inductive Scope where
  | application
  | profile (profile : ProfileId)
  | worksheet (worksheet : WorksheetId)
  deriving DecidableEq

def Scope.level : Scope → Level
  | .application => .application
  | .profile _ => .profile
  | .worksheet _ => .worksheet

theorem single_int (int : Option Int) : int = none ∨ (none : Option Text) = none := .inr rfl

theorem unnamed_application : ScopeWord.application = .application ↔ ([] : Text) = [] := by simp

theorem unnamed_profile (profile : ProfileId) : ScopeWord.profile = .application ↔ profile.toText = [] := by
  simp [ProfileId.toText,Uuid.hyphenated]

def storedSetting (mobile : Bool) (id : SettingId) (value : SettingValue) : StoredSetting :=
  ⟨id.storageKey mobile,(encodeValue value).1,(encodeValue value).2,none,single_int _⟩

def checkSetting (mobile : Bool) (level : Level) (id : SettingId) (value : SettingValue) : Except (Failure codec) Unit :=
  match (id.descriptor mobile).check level value with
  | .error error => .error (.invalidSetting error)
  | .ok () => .ok ()

def putSettingValue (mobile : Bool) (now : Int) (scope : Scope) (id : SettingId) (value : SettingValue) :
    Operation codec Unit :=
  checked (checkSetting mobile scope.level id value) fun () =>
    let stored := storedSetting mobile id value
    match scope with
    | .application => execute (·.upsertSetting ⟨stored,.application,[],now,unnamed_application⟩)
    | .profile profile => do
      requireProfile profile
      execute (·.upsertSetting ⟨stored,.profile,profile.toText,now,unnamed_profile profile⟩)
    | .worksheet worksheet => do
      requireWorksheet worksheet
      statement (·.upsertWorksheetSetting ⟨stored,worksheet,now⟩)

def clearSetting (mobile : Bool) (scope : Scope) (id : SettingId) : Operation codec Bool :=
  immediate <| statement fun db => .ok <|
    match scope with
    | .application =>
      let named (row : SettingRow) := row.primaryKey == (.application,lower [],id.storageKey mobile)
      (db.setting.rows.any named,{ db with setting := db.setting.delete named })
    | .profile profile =>
      let named (row : SettingRow) := row.primaryKey == (.profile,lower profile.toText,id.storageKey mobile)
      (db.setting.rows.any named,{ db with setting := db.setting.delete named })
    | .worksheet worksheet =>
      let named (row : WorksheetSettingRow) := row.primaryKey == (worksheet,id.storageKey mobile)
      (db.worksheetSetting.rows.any named,{ db with worksheetSetting := db.worksheetSetting.delete named })

def clearWorksheetSettings (worksheet : WorksheetId) : Operation codec Nat :=
  immediate <| statement fun db => .ok
    (db.worksheetSetting.rows.countP (·.worksheet == worksheet),
      { db with worksheetSetting := db.worksheetSetting.delete (·.worksheet == worksheet) })

def checkWorksheet (worksheet : Worksheet) : Except (Failure codec) Unit :=
  match worksheet.state.validate with
  | .error error => .error (.invalidWorksheet error)
  | .ok () => .ok ()

def saveWorksheet (worksheet : Worksheet) : Operation codec Unit :=
  checked (checkWorksheet worksheet) fun () => do
    worksheet.profile.forM requireProfile
    statement (·.upsertWorksheet worksheet)

def deleteWorksheet (worksheet : WorksheetId) : Operation codec Bool :=
  immediate <| statement fun db => .ok (db.deleteWorksheet worksheet)

def saveLayout (now : Int) (layout : Layout) : Operation codec Unit :=
  immediate do
    layout.activeWorksheet.forM requireWorksheet
    layout.activeProfile.forM requireProfile
    statement (·.upsertLayout ⟨layout,now⟩)

def encodeHistoryOutcome : HistoryOutcome → String × Option Int
  | .succeeded => ("succeeded",none)
  | .failed nativeCode => ("failed",nativeCode.map Int32.toInt)
  | .cancelled => ("cancelled",none)
  | .timedOut => ("timed_out",none)

theorem encodeHistoryOutcome_known (outcome : HistoryOutcome) :
    (encodeHistoryOutcome outcome).1 ∈ ["succeeded","failed","cancelled","timed_out"] := by
  cases outcome <;> simp [encodeHistoryOutcome]

theorem encodeHistoryOutcome_coded (outcome : HistoryOutcome) :
    (encodeHistoryOutcome outcome).1 = "failed" ∨ (encodeHistoryOutcome outcome).2 = none := by
  cases outcome <;> simp [encodeHistoryOutcome]

/-- `i64::try_from(n).unwrap_or(i64::MAX)`. -/
def clampI64 (n : UInt64) : Int := min n.toNat (2^63 - 1)

def HistoryEntry.row (entry : HistoryEntry) : HistoryRow where
  profile := entry.profile
  executedAt := entry.executedAt
  statement := entry.statement
  outcome := (encodeHistoryOutcome entry.outcome).1
  nativeCode := (encodeHistoryOutcome entry.outcome).2
  elapsedMs := clampI64 entry.elapsedMs
  rowCount := entry.rowCount.map clampI64
  known := encodeHistoryOutcome_known entry.outcome
  coded := encodeHistoryOutcome_coded entry.outcome

def checkHistory (entry : HistoryEntry) : Except (Failure codec) Unit :=
  match entry.validate with
  | .error error => .error (.invalidHistory error)
  | .ok () => .ok ()

/-- The oldest rows of a profile go, as many as its count is above the limit. -/
def trimHistory (mobile : Bool) (profile : ProfileId) (count : Int) : Sql codec Unit := do
  let limit ← query fun db => currentMaxEntries mobile db.setting
  match limit with
  | none => pure ()
  | some limit =>
    if count > limit.toNat then do
      execute (·.deleteOldest profile (count - limit.toNat).toNat)
      execute (·.lessCount profile (count - limit.toNat))
    else pure ()

def recordHistory (mobile : Bool) (entry : HistoryEntry) : Operation codec Nat :=
  checked (checkHistory entry) fun () => do
    requireProfile entry.profile
    let id ← statement (·.insertHistory entry.row)
    let count ← statement (·.countHistory entry.profile)
    trimHistory mobile entry.profile count
    return id

def clearHistory (profile : ProfileId) : Operation codec Nat :=
  immediate do
    let deleted ← statement fun db => .ok (db.deleteHistory profile)
    execute (·.deleteHistoryMeta profile)
    return deleted

end

variable {codec : ProfileCodec}

structure HistoryRecord where
  id : Nat
  profile : ProfileId
  executedAt : Int
  statement : Text
  outcome : HistoryOutcome
  elapsedMs : UInt64
  rowCount : Option UInt64

structure HistoryPage where
  limit : UInt32
  before : Option Nat

/-- `i32::try_from(code).unwrap_or(i32::MAX)`. -/
def clampI32 (code : Int) : Int32 := if -2^31 ≤ code ∧ code < 2^31 then Int32.ofInt code else Int32.ofInt (2^31 - 1)

def decodeHistoryOutcome (word : String) (nativeCode : Option Int) : Except String HistoryOutcome :=
  if word = "succeeded" then .ok .succeeded
  else if word = "failed" then .ok (.failed (nativeCode.map clampI32))
  else if word = "cancelled" then .ok .cancelled
  else if word = "timed_out" then .ok .timedOut
  else .error ("outcome '" ++ word ++ "' is not one this build knows")

/-- `u64::try_from(n).unwrap_or(0)`. -/
def u64OrZero (n : Int) : UInt64 := if 0 ≤ n ∧ n < 2^64 then UInt64.ofNat n.toNat else 0

def decodeHistory (profile : ProfileId) (row : Nat × HistoryRow) : Except (Failure codec) HistoryRecord :=
  match decodeHistoryOutcome row.2.outcome row.2.nativeCode with
  | .error detail => .error (.invalidRow detail)
  | .ok outcome => .ok ⟨row.1,profile,row.2.executedAt,row.2.statement,outcome,u64OrZero row.2.elapsedMs,
      row.2.rowCount.map u64OrZero⟩

def history (db : Db codec) (profile : ProfileId) (page : HistoryPage) : Except (Failure codec) (List HistoryRecord) :=
  (db.history.newest (·.profile == profile) page.before page.limit.toNat).mapM (decodeHistory profile)

end Reldex.Workspace
