import Reldex.Like
import Reldex.Text

/-! The name filter of the catalog queries. The filter is sent as a bind whose pattern escapes what
`LIKE` would take for a wildcard, so that a name matches when it contains the filter. -/
namespace Reldex
open List

def nameFilterEscapeChar : Char := '\\'

def nameFilterPattern (filter : Text) : Text :=
  '%' :: filter.flatMap (fun ch =>
    if ch == nameFilterEscapeChar || ch == '%' || ch == '_' then [nameFilterEscapeChar,ch] else [ch]) ++ ['%']

namespace OracleThin

inductive MetadataObjectKind where
  | tables | views | packages | packageBodies | procedures | functions | triggers | sequences | synonyms

inductive MetadataRequest where
  | schemas (nameFilter : Option Text) (limit : Nat)
  | objectsOfKind (schema : Text) (kind : MetadataObjectKind) (nameFilter : Option Text) (limit : Nat)
  | columnsOf (schema table : Text)

inductive Bind where
  | text (value : Option Text)
  | integer (value : Nat)

structure Statement where
  sql : String
  namedBinds : List (String × Bind)

def schemasSql : String :=
  "SELECT USERNAME AS \"name\", CREATED AS \"created\" FROM ALL_USERS " ++
  "WHERE UPPER(USERNAME) LIKE NVL(UPPER(:filter_pattern), '%') ESCAPE '\\' " ++
  "ORDER BY USERNAME FETCH FIRST :limit_plus_one ROWS ONLY"

def tablesSql : String :=
  "SELECT o.OBJECT_NAME AS \"name\", o.STATUS AS \"status\", " ++
  "o.CREATED AS \"created\", o.LAST_DDL_TIME AS \"last_modified\" FROM ALL_OBJECTS o " ++
  "JOIN ALL_TABLES t ON t.OWNER = o.OWNER AND t.TABLE_NAME = o.OBJECT_NAME " ++
  "WHERE o.OWNER = :schema AND o.OBJECT_TYPE = 'TABLE' AND t.NESTED = 'NO' " ++
  "AND t.SECONDARY = 'N' AND (t.IOT_TYPE IS NULL OR t.IOT_TYPE != 'IOT_OVERFLOW') " ++
  "AND o.OBJECT_NAME NOT LIKE 'BIN$%' " ++
  "AND UPPER(o.OBJECT_NAME) LIKE NVL(UPPER(:filter_pattern), '%') ESCAPE '\\' " ++
  "ORDER BY o.OBJECT_NAME FETCH FIRST :limit_plus_one ROWS ONLY"

def columnsOfSql : String :=
  "SELECT COLUMN_ID AS \"position\", COLUMN_NAME AS \"name\", CASE DATA_TYPE WHEN 'NUMBER' THEN CASE " ++
  "WHEN DATA_PRECISION IS NOT NULL AND DATA_SCALE IS NOT NULL " ++
  "THEN 'NUMBER(' || DATA_PRECISION || ',' || DATA_SCALE || ')' " ++
  "WHEN DATA_PRECISION IS NULL AND DATA_SCALE IS NOT NULL THEN 'NUMBER(*,' || DATA_SCALE || ')' ELSE 'NUMBER' END " ++
  "WHEN 'FLOAT' THEN 'FLOAT(' || DATA_PRECISION || ')' " ++
  "WHEN 'VARCHAR2' THEN 'VARCHAR2(' || CHAR_LENGTH || ' ' " ++
  "|| DECODE(CHAR_USED, 'C', 'CHAR', 'B', 'BYTE', 'BYTE') || ')' " ++
  "WHEN 'CHAR' THEN 'CHAR(' || CHAR_LENGTH || ' ' || DECODE(CHAR_USED, 'C', 'CHAR', 'B', 'BYTE', 'BYTE') || ')' " ++
  "WHEN 'NCHAR' THEN 'NCHAR(' || CHAR_LENGTH || ')' WHEN 'NVARCHAR2' THEN 'NVARCHAR2(' || CHAR_LENGTH || ')' " ++
  "WHEN 'RAW' THEN 'RAW(' || DATA_LENGTH || ')' ELSE DATA_TYPE END AS \"type_name\", " ++
  "DECODE(NULLABLE, 'Y', 'YES', 'NO') AS \"nullable\" " ++
  "FROM ALL_TAB_COLUMNS WHERE OWNER = :schema AND TABLE_NAME = :table_name " ++
  "AND COLUMN_ID IS NOT NULL ORDER BY COLUMN_ID"

def simpleObjectsOfKindSql (objectType : String) : String :=
  "SELECT OBJECT_NAME AS \"name\", STATUS AS \"status\", CREATED AS \"created\", " ++
  "LAST_DDL_TIME AS \"last_modified\" FROM ALL_OBJECTS WHERE OWNER = :schema " ++
  "AND OBJECT_TYPE = '" ++ objectType ++ "' " ++
  "AND UPPER(OBJECT_NAME) LIKE NVL(UPPER(:filter_pattern), '%') ESCAPE '\\' " ++
  "ORDER BY OBJECT_NAME FETCH FIRST :limit_plus_one ROWS ONLY"

def objectsOfKindSql : MetadataObjectKind → String
  | .tables => tablesSql
  | .views => simpleObjectsOfKindSql "VIEW"
  | .packages => simpleObjectsOfKindSql "PACKAGE"
  | .packageBodies => simpleObjectsOfKindSql "PACKAGE BODY"
  | .procedures => simpleObjectsOfKindSql "PROCEDURE"
  | .functions => simpleObjectsOfKindSql "FUNCTION"
  | .triggers => simpleObjectsOfKindSql "TRIGGER"
  | .sequences => simpleObjectsOfKindSql "SEQUENCE"
  | .synonyms => simpleObjectsOfKindSql "SYNONYM"

def filterAndLimitBinds (nameFilter : Option Text) (limit : Nat) : List (String × Bind) :=
  [("filter_pattern",.text (nameFilter.map nameFilterPattern)),("limit_plus_one",.integer (limit + 1))]

def prepare : MetadataRequest → Statement
  | .schemas nameFilter limit => ⟨schemasSql,filterAndLimitBinds nameFilter limit⟩
  | .objectsOfKind schema kind nameFilter limit =>
    ⟨objectsOfKindSql kind,("schema",.text (some schema)) :: filterAndLimitBinds nameFilter limit⟩
  | .columnsOf schema table => ⟨columnsOfSql,[("schema",.text (some schema)),("table_name",.text (some table))]⟩

end OracleThin

def OracleThin.MetadataRequest.refiltered (nameFilter : Option Text) :
    OracleThin.MetadataRequest → OracleThin.MetadataRequest
  | .schemas _ limit => .schemas nameFilter limit
  | .objectsOfKind schema kind _ limit => .objectsOfKind schema kind nameFilter limit
  | .columnsOf schema table => .columnsOf schema table

/-- The server's `UPPER`, one character at a time. It makes no special character of another one. -/
structure UpperCase where
  upper : Char → Text
  special : ∀ c, Like.isSpecial nameFilterEscapeChar c = true → upper c = [c]
  ordinary : ∀ c, Like.isSpecial nameFilterEscapeChar c = false →
    ∀ x ∈ upper c, Like.isSpecial nameFilterEscapeChar x = false

def asciiUpper : UpperCase where
  upper c := [c.toUpper]
  special c special := by
    simp only [Like.isSpecial,nameFilterEscapeChar,Bool.or_eq_true,beq_iff_eq] at special
    rcases special with (rfl | rfl) | rfl <;> rfl
  ordinary c ordinary x member := by
    rw [mem_singleton.mp member]
    by_cases lower : 'a'.val ≤ c.val ∧ c.val ≤ 'z'.val
    · have letter : 65 ≤ c.toUpper.toNat ∧ c.toUpper.toNat ≤ 90 := by
        have raised : c.toUpper = ⟨c.val + ('A'.val - 'a'.val),_⟩ := dif_pos lower
        rw [raised,Char.toNat]
        simp [UInt32.le_iff_toNat_le] at lower ⊢
        omega
      refine Bool.eq_false_iff.mpr fun special => ?_
      simp only [Like.isSpecial,Bool.or_eq_true,beq_iff_eq] at special
      rcases special with (same | same) | same <;> exact absurd (same ▸ letter) (by decide)
    · have same : c.toUpper = c := dif_neg lower
      rw [same]
      exact ordinary

namespace UpperCase
variable (server : UpperCase)

def text (text : Text) : Text := text.flatMap server.upper

theorem text_escaped (filter : Text) :
    server.text (Like.escaped nameFilterEscapeChar filter) = Like.escaped nameFilterEscapeChar (server.text filter) := by
  simp only [text,Like.escaped,flatMap_assoc]
  refine flatMap_congr fun c _ => ?_
  cases special : Like.isSpecial nameFilterEscapeChar c with
  | true =>
    have escape := server.special nameFilterEscapeChar (by decide)
    simp [server.special c special,escape,special]
  | false =>
    have plain : ∀ x ∈ server.upper c,
        (if Like.isSpecial nameFilterEscapeChar x then [nameFilterEscapeChar,x] else [x]) = [x] :=
      fun x member => by rw [if_neg (by simp [server.ordinary c special x member])]
    rw [flatMap_congr plain]
    simp

theorem text_pattern (filter : Text) : server.text (nameFilterPattern filter) = nameFilterPattern (server.text filter) := by
  have percent := server.special '%' (by decide)
  have inside := server.text_escaped filter
  unfold text at inside ⊢
  simp only [nameFilterPattern,flatMap_append,flatMap_cons,flatMap_nil,percent,append_nil]
  exact congrArg (fun middle => '%' :: middle ++ ['%']) inside

end UpperCase

/-- Every pattern is well formed; its atoms are the filter between two percent signs. -/
theorem parse_pattern (filter : Text) :
    Like.parse nameFilterEscapeChar (nameFilterPattern filter) = some (.any :: (filter.map .literal ++ [.any])) := by
  have inside := @Like.parse_escaped nameFilterEscapeChar filter ['%']
  have first := @Like.parse_plain nameFilterEscapeChar '%' (by decide)
    (Like.escaped nameFilterEscapeChar filter ++ ['%'])
  rw [inside] at first
  exact first

/-- The filter is a contains without regard to case, it never makes a pattern the server refuses,
and it leaves the SQL as it is. -/
theorem name_filter_is_contains (server : UpperCase) (filter name : Text) :
    (∃ atoms, Like.parse nameFilterEscapeChar (server.text (nameFilterPattern filter)) = some atoms ∧
      (Like.accepts atoms (server.text name) = true ↔ server.text filter <:+: server.text name)) ∧
    (∃ atoms, Like.parse nameFilterEscapeChar (nameFilterPattern filter) = some atoms) ∧
    ∀ request nameFilter, (OracleThin.prepare (request.refiltered nameFilter)).sql = (OracleThin.prepare request).sql := by
  refine ⟨⟨_,?_,Like.accepts_contains _ _⟩,⟨_,parse_pattern filter⟩,fun request nameFilter => ?_⟩
  · rw [server.text_pattern,parse_pattern]
  · cases request <;> rfl

/-- Wildcards and backslashes of the filter stand for themselves. -/
theorem wildcards_are_literal :
    (∃ atoms, Like.parse '\\' (asciiUpper.text (nameFilterPattern "r\\_a%".toList)) = some atoms ∧
      Like.accepts atoms "XR\\_A%B".toList = true) ∧
    ∃ atoms, Like.parse '\\' (asciiUpper.text (nameFilterPattern "r\\_a%".toList)) = some atoms ∧
      Like.accepts atoms "XR\\_AB".toList = false := by
  obtain ⟨⟨atoms,parsed,found⟩,_⟩ := name_filter_is_contains asciiUpper "r\\_a%".toList "xR\\_a%b".toList
  obtain ⟨⟨atoms',parsed',missed⟩,_⟩ := name_filter_is_contains asciiUpper "r\\_a%".toList "xR\\_ab".toList
  refine ⟨⟨atoms,parsed,found.mpr (by decide)⟩,atoms',parsed',Bool.eq_false_iff.mpr fun accepted => ?_⟩
  exact absurd (missed.mp accepted) (by decide)

end Reldex
