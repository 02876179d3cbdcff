import Reldex.WorkspaceStore
import Mathlib.Data.Char
import Mathlib.Data.List.Lex
import Mathlib.Data.Prod.Lex

/-! Loading the worksheets. A row that does not decode is set aside; a text that is not UTF-8 or a number
that does not fit its type is refused before that, by the mapper of the rows, and then nothing is loaded. -/
namespace Reldex.Workspace
open List

section

inductive IdError where
  | malformed | nil
  deriving DecidableEq, Repr

def IdError.toString : IdError → String
  | .malformed => "not a hyphenated UUID"
  | .nil => "the nil UUID is not a valid identifier"

/-- Either case is read. -/
def hexDigit (c : Char) : Option (Fin 16) := (List.finRange 16).find? fun digit => Nat.digitChar digit.val == c.toLower

/-- `Uuid::try_parse` of a text of 36 bytes. -/
def Uuid.tryParse (text : Text) : Option Uuid := do
  let digits ← (text.take 8 ++ (text.drop 9).take 4 ++ (text.drop 14).take 4 ++ (text.drop 19).take 4 ++
    text.drop 24).mapM hexDigit
  if sized : digits.length = 32 then
    if [8,13,18,23].all fun i => text[i]? == some '-' then some ⟨digits,sized⟩ else none
  else none

def parseUuid (text : Text) : Except IdError { uuid : Uuid // uuid.isNil = false } :=
  if len text ≠ 36 then .error .malformed
  else
    match Uuid.tryParse text with
    | none => .error .malformed
    | some uuid => if nil : uuid.isNil = true then .error .nil else .ok ⟨uuid,by simpa using nil⟩

def WorksheetId.parse (text : Text) : Except IdError WorksheetId := (parseUuid text).map fun uuid => ⟨uuid.1,uuid.2⟩
def ProfileId.parse (text : Text) : Except IdError ProfileId := (parseUuid text).map fun uuid => ⟨uuid.1,uuid.2⟩

def WorksheetError.toString : WorksheetError → String
  | .titleTooLong chars max =>
    s!"the worksheet's title is {chars} characters, more than the {max}-character cap"
  | .titleControlCharacter => "the worksheet's title contains a control character"
  | .textTooLong bytes max => s!"the worksheet's text is {bytes} bytes, more than the {max}-byte cap"
  | .caretOutOfBounds caret len => s!"the caret position {caret} is past the end of the text ({len} bytes)"

/-- A row as it is stored: the columns are `TEXT`, which is any bytes, and `INTEGER`. -/
structure WorksheetRow where
  id : List UInt8
  profileId : Option (List UInt8)
  title : List UInt8
  text : List UInt8
  caret : Int
  scroll : Int
  tabOrder : Int
  createdAt : Int
  updatedAt : Int

structure MappedRow where
  id : Text
  profileId : Option Text
  title : Text
  text : Text
  caret : UInt32
  scroll : UInt32
  tabOrder : UInt32
  createdAt : Int
  updatedAt : Int

def decodeWorksheet (row : MappedRow) : Except String Worksheet := do
  let id ← (WorksheetId.parse row.id).mapError fun error => "id: " ++ error.toString
  let profile ← row.profileId.mapM fun text =>
    (ProfileId.parse text).mapError fun error => "profile_id: " ++ error.toString
  let state : WorksheetState := ⟨row.title,row.text,row.caret,row.scroll⟩
  state.validate.mapError WorksheetError.toString
  return ⟨id,profile,state,row.tabOrder,row.createdAt,row.updatedAt⟩

/-- `str::from_utf8`. -/
def fromUtf8 (bytes : List UInt8) : Option Text := (String.fromUTF8? bytes.toByteArray).map String.toList

variable {ε : Type} (utf8Error : List UInt8 → String)

/-- `row.get::<_, String>`; `utf8Error` prints what the conversion says of the bytes. -/
def getString (column : Nat) (bytes : List UInt8) : Except (StoreError ε) Text :=
  match fromUtf8 bytes with
  | some text => .ok text
  | none => .error (.sqlite (-1) s!"Conversion error from type Text at index: {column}, {utf8Error bytes}")

/-- `row.get::<_, u32>`. -/
def getU32 (column : Nat) (n : Int) : Except (StoreError ε) UInt32 :=
  if 0 ≤ n ∧ n < 2^32 then .ok (UInt32.ofNat n.toNat)
  else .error (.sqlite (-1) s!"Integer {n} out of range at index {column}")

def mapRow (row : WorksheetRow) : Except (StoreError ε) MappedRow := do
  let id ← getString utf8Error 0 row.id
  let profileId ← row.profileId.mapM (getString utf8Error 1)
  let title ← getString utf8Error 2 row.title
  let text ← getString utf8Error 3 row.text
  let caret ← getU32 4 row.caret
  let scroll ← getU32 5 row.scroll
  let tabOrder ← getU32 6 row.tabOrder
  return ⟨id,profileId,title,text,caret,scroll,tabOrder,row.createdAt,row.updatedAt⟩

def loadWorksheet (loaded : Loaded (List Worksheet)) (row : WorksheetRow) :
    Except (StoreError ε) (Loaded (List Worksheet)) := do
  let row ← mapRow utf8Error row
  match decodeWorksheet row with
  | .ok worksheet => return { loaded with value := loaded.value ++ [worksheet] }
  | .error detail =>
    return { loaded with rejected := loaded.rejected ++ [⟨.worksheet,String.ofList row.id,.undecodable detail⟩] }

/-- A byte as `NOCASE` compares it. -/
def noCase (byte : UInt8) : Nat := if 65 ≤ byte ∧ byte ≤ 90 then byte.toNat + 32 else byte.toNat

/-- `ORDER BY tab_order, id`, where the case of an id does not matter. -/
def WorksheetRow.place (row : WorksheetRow) : Int ×ₗ List Nat := toLex (row.tabOrder,row.id.map noCase)
def inTabOrder (table : List WorksheetRow) : List WorksheetRow := table.insertionSort fun a b => a.place ≤ b.place

def loadWorksheets (table : List WorksheetRow) : Except (StoreError ε) (Loaded (List Worksheet)) :=
  (inTabOrder table).foldlM (loadWorksheet utf8Error) ⟨[],[]⟩

end

variable {ε : Type} {utf8Error : List UInt8 → String}

def WorksheetRow.mapped (row : WorksheetRow) : MappedRow where
  id := (fromUtf8 row.id).getD []
  profileId := row.profileId.map fun bytes => (fromUtf8 bytes).getD []
  title := (fromUtf8 row.title).getD []
  text := (fromUtf8 row.text).getD []
  caret := .ofNat row.caret.toNat
  scroll := .ofNat row.scroll.toNat
  tabOrder := .ofNat row.tabOrder.toNat
  createdAt := row.createdAt
  updatedAt := row.updatedAt

def WorksheetRow.decoded (row : WorksheetRow) : Except String Worksheet := decodeWorksheet row.mapped

def WorksheetRow.rejection (row : WorksheetRow) : Option RejectedRow :=
  match row.decoded with
  | .ok _ => none
  | .error detail => some ⟨.worksheet,String.ofList row.mapped.id,.undecodable detail⟩

/-- The texts of the row are UTF-8, and its numbers are of the type that they are read as. -/
def WorksheetRow.Fits (row : WorksheetRow) : Prop :=
  (∀ bytes ∈ row.id :: row.title :: row.text :: row.profileId.toList, bytes.toByteArray.IsValidUTF8) ∧
    ∀ n ∈ [row.caret,row.scroll,row.tabOrder], 0 ≤ n ∧ n < 2^32

theorem getString_valid (valid : bytes.toByteArray.IsValidUTF8) (column : Nat) :
    getString utf8Error column bytes = (.ok ((fromUtf8 bytes).getD []) : Except (StoreError ε) _) := by
  simp [getString,fromUtf8,String.fromUTF8?,valid]

theorem getString_ok (done : getString utf8Error column bytes = (.ok text : Except (StoreError ε) _)) :
    bytes.toByteArray.IsValidUTF8 := by
  by_contra invalid
  simp [getString,fromUtf8,String.fromUTF8?,invalid] at done

theorem mapRow_fits {row : WorksheetRow} (fits : row.Fits) :
    mapRow utf8Error row = (.ok row.mapped : Except (StoreError ε) _) := by
  obtain ⟨texts,numbers⟩ := fits
  simp only [forall_mem_cons] at texts numbers
  have profile : row.profileId.mapM (getString utf8Error 1) = (.ok row.mapped.profileId : Except (StoreError ε) _) := by
    cases there : row.profileId with
    | none => simp [WorksheetRow.mapped,there,pure,Except.pure]
    | some bytes =>
      have valid := texts.2.2.2 bytes (by simp [there])
      simp [WorksheetRow.mapped,there,getString_valid valid]
  unfold mapRow getU32
  rw [getString_valid texts.1,profile,getString_valid texts.2.1,getString_valid texts.2.2.1,if_pos numbers.1,
    if_pos numbers.2.1,if_pos numbers.2.2.1]
  rfl

theorem loadWorksheet_fits {row : WorksheetRow} (fits : row.Fits) (loaded : Loaded (List Worksheet)) :
    loadWorksheet utf8Error loaded row =
      (.ok ⟨loaded.value ++ row.decoded.toOption.toList,loaded.rejected ++ row.rejection.toList⟩ :
        Except (StoreError ε) _) := by
  unfold loadWorksheet WorksheetRow.rejection
  rw [mapRow_fits fits]
  change (match row.decoded with | .ok _ => _ | .error _ => _) = _
  cases row.decoded <;> simp [Except.toOption,pure,Except.pure]

theorem loadWorksheet_ok (done : loadWorksheet utf8Error loaded row = (.ok more : Except (StoreError ε) _)) :
    row.Fits := by
  unfold loadWorksheet mapRow getU32 at done
  obtain ⟨mapped,done,_⟩ := bind_ok done
  obtain ⟨_,id,done⟩ := bind_ok done
  obtain ⟨_,profile,done⟩ := bind_ok done
  obtain ⟨_,title,done⟩ := bind_ok done
  obtain ⟨_,text,done⟩ := bind_ok done
  split_ifs at done with caret scroll tabOrder
  · simp only [WorksheetRow.Fits,forall_mem_cons]
    refine ⟨⟨getString_ok id,getString_ok title,getString_ok text,fun bytes member => ?_⟩,caret,scroll,tabOrder,by simp⟩
    rw [Option.mem_toList.mp member] at profile
    obtain ⟨_,read,_⟩ := bind_ok profile
    exact getString_ok read
  all_goals cases done

theorem foldlM_loadWorksheet {rows : List WorksheetRow} (fit : ∀ row ∈ rows, row.Fits) (loaded : Loaded (List Worksheet)) :
    rows.foldlM (loadWorksheet utf8Error) loaded = (.ok ⟨loaded.value ++ rows.filterMap (·.decoded.toOption),
      loaded.rejected ++ rows.filterMap (·.rejection)⟩ : Except (StoreError ε) _) := by
  induction rows generalizing loaded with
  | nil => simp [pure,Except.pure]
  | cons row rows ih =>
    rw [forall_mem_cons] at fit
    rw [foldlM_cons,loadWorksheet_fits fit.1]
    refine (ih fit.2 _).trans ?_
    cases decoded : row.decoded.toOption <;> cases rejected : row.rejection <;> simp [*]

theorem fit_of_foldlM_loadWorksheet {rows : List WorksheetRow}
    (done : rows.foldlM (loadWorksheet utf8Error) loaded = (.ok more : Except (StoreError ε) _)) : ∀ row ∈ rows, row.Fits := by
  induction rows generalizing loaded with
  | nil => simp
  | cons row rows ih =>
    rw [foldlM_cons] at done
    cases first : (loadWorksheet utf8Error loaded row : Except (StoreError ε) _) with
    | error error => rw [first] at done; cases done
    | ok next =>
      rw [first] at done
      exact forall_mem_cons.mpr ⟨loadWorksheet_ok first,ih done⟩

theorem mem_inTabOrder : row ∈ inTabOrder table ↔ row ∈ table := (perm_insertionSort _ table).mem_iff

/-- A row that does not decode hides none of the others exactly when every text that is stored is UTF-8 and every
number fits. -/
theorem loadWorksheets_hides_nothing_iff (utf8Error : List UInt8 → String) (table : List WorksheetRow) :
    (∃ rows : List WorksheetRow, rows.Perm table ∧ rows.Pairwise (fun a b => a.place ≤ b.place) ∧
      loadWorksheets utf8Error table =
        (.ok ⟨rows.filterMap (·.decoded.toOption),rows.filterMap (·.rejection)⟩ : Except (StoreError ε) _) ∧
      ∀ row ∈ rows, (∃ worksheet, row.decoded = .ok worksheet ∧ row.rejection = none) ∨
        ∃ detail, row.decoded = .error detail ∧
          row.rejection = some ⟨.worksheet,String.ofList row.mapped.id,.undecodable detail⟩) ↔
    ∀ row ∈ table, row.Fits := by
  constructor
  · rintro ⟨rows,-,-,done,-⟩ row held
    exact fit_of_foldlM_loadWorksheet done row (mem_inTabOrder.mpr held)
  · intro fit
    refine ⟨inTabOrder table,perm_insertionSort _ table,pairwise_insertionSort _ table,?_,fun row _ => ?_⟩
    · exact (foldlM_loadWorksheet (fun row held => fit row (mem_inTabOrder.mp held)) _).trans (by simp)
    · unfold WorksheetRow.rejection
      cases row.decoded <;> simp

def ascii (text : String) : List UInt8 := text.toList.map fun c => .ofNat c.toNat

def aRow : WorksheetRow := ⟨ascii "11111111-1111-1111-1111-111111111111",none,[],[],0,0,0,0,0⟩
def badRow : WorksheetRow := { aRow with id := ascii "22222222-2222-2222-2222-222222222222", tabOrder := 1 }

/-- The caret of one row is negative, or its title is not UTF-8: the other row, which decodes, is not loaded
either. -/
theorem a_bad_row_hides_a_worksheet : aRow.decoded.isOk = true ∧
    loadWorksheets (fun _ => "") [aRow,{ badRow with caret := -1 }] =
      (.error (.sqlite (-1) "Integer -1 out of range at index 4") : Except (StoreError Empty) _) ∧
    loadWorksheets (fun _ => "invalid utf-8 sequence of 1 bytes from index 0") [aRow,{ badRow with title := [255] }] =
      (.error (.sqlite (-1) ("Conversion error from type Text at index: 2, " ++
        "invalid utf-8 sequence of 1 bytes from index 0")) : Except (StoreError Empty) _) := by
  exact ⟨rfl,rfl,rfl⟩

end Reldex.Workspace
