import Reldex.SqlLexing

/-! Lexing texts that are joined by line breaks. The lexer works line by line and carries
its mode, so a text that leaves nothing open is lexed the same before any other line. -/
namespace Reldex
open List Option
variable {u : UnicodeTables} {d : SqlDialect}

def lexText (u : UnicodeTables) (d : SqlDialect) (mode : Mode) (text : Text) : Option (List Lexeme × Mode) :=
  lexLines u d mode (text.splitOn '\n')

theorem lexLines_append (mode : Mode) (first second : List Text) (some : first ≠ []) (more : second ≠ []) :
    lexLines u d mode (first ++ second) = (lexLines u d mode first).bind fun (ls,carried) =>
      (lexLines u d carried second).map fun (rest,final) => (ls ++ lineBreak carried :: rest,final) := by
  induction first generalizing mode with
  | nil => exact absurd rfl some
  | cons line lines ih =>
    cases lines with
    | nil =>
      obtain ⟨next,rest,rfl⟩ := exists_cons_of_ne_nil more
      rfl
    | cons next lines =>
      have ih := fun mode => ih mode (by simp)
      simp only [cons_append,lexLines] at ih ⊢
      cases lexBlock u d mode line with
      | none => rfl
      | some head =>
        simp only [bind_some,ih]
        cases lexLines u d head.2 (next :: lines) with
        | none => rfl
        | some tail =>
          simp only [Option.bind_some,Option.map_some,Option.map_map]
          congr 1
          funext found
          simp

theorem lexText_break (mode : Mode) (a b : Text) :
    lexText u d mode (a ++ '\n' :: b) = (lexText u d mode a).bind fun (ls,carried) =>
      (lexText u d carried b).map fun (rest,final) => (ls ++ lineBreak carried :: rest,final) := by
  rw [lexText,splitOn_append_cons_self,lexLines_append mode _ _ (splitOn_ne_nil _ _) (splitOn_ne_nil _ _)]
  rfl

theorem lexText_lines (lexed : lexText u d .normal a = some (ls,.normal)) (b : Text) :
    lexText u d .normal (a ++ '\n' :: b) =
      (lexText u d .normal b).map fun (rest,final) => (ls ++ lineBreak .normal :: rest,final) := by
  rw [lexText_break,lexed]
  rfl

def closeLexemes (lexed : List Lexeme × Mode) : List Lexeme :=
  if lexed.2 == .normal then lexed.1 else markOpen lexed.1

theorem lexemes_eq (u : UnicodeTables) (d : SqlDialect) (text : Text) :
    lexemes u d text = (lexText u d .normal text).map closeLexemes := rfl

theorem lexemes_of_lexText (lexed : lexText u d .normal text = some (ls,.normal)) : lexemes u d text = some ls := by
  rw [lexemes_eq,lexed]
  rfl

theorem markOpen_append (a : List Lexeme) (some : b ≠ []) : markOpen (a ++ b) = a ++ markOpen b := by
  obtain ⟨x,xs,rfl⟩ := exists_cons_of_ne_nil some
  induction a with
  | nil => rfl
  | cons l a ih =>
    cases a with
    | nil => rfl
    | cons next a =>
      rw [cons_append,cons_append,markOpen,← cons_append,ih]
      rfl

theorem lexText_flat (lexed : lexText u d mode text = some (ls,final)) : flat ls = text := by
  have raw := (lexLines_raw (splitOn_oneLine text) lexed).flat
  rwa [intercalate_splitOn] at raw

theorem lexemes_lines (lexed : lexText u d .normal a = some (ls,.normal)) (more : lexemes u d b = some rest) :
    lexemes u d (a ++ '\n' :: b) = some (ls ++ lineBreak .normal :: rest) := by
  rw [lexemes_eq] at more ⊢
  obtain ⟨⟨raw,final⟩,found,rfl⟩ := map_eq_some_iff.mp more
  rw [lexText_lines lexed,found]
  simp only [map_some,closeLexemes,some.injEq]
  split
  · rfl
  · next stillOpen =>
    -- Only an empty text has no lexemes, and it leaves nothing open.
    have some : raw ≠ [] := by
      rintro rfl
      cases lexText_flat found
      cases found
      exact stillOpen rfl
    have first : markOpen (lineBreak .normal :: raw) = lineBreak .normal :: markOpen raw :=
      markOpen_append [lineBreak .normal] some
    rw [markOpen_append ls (cons_ne_nil _ _),first]

end Reldex
