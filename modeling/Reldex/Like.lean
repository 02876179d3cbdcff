import Mathlib.Data.List.Infix

/-! Patterns of SQL's `LIKE` with an escape character, and what they accept. -/
namespace Like
open List

inductive Atom where
  | any
  | one
  | literal (c : Char)
  deriving DecidableEq

def isSpecial (escape c : Char) : Bool := c == escape || c == '%' || c == '_'
def atom (c : Char) : Atom := if c == '%' then .any else if c == '_' then .one else .literal c

/-- An escape makes the special character behind it a literal. Before another character, and at
the end, it is an error. -/
def parse (escape : Char) : List Char → Option (List Atom)
  | [] => some []
  | c :: rest =>
    if c == escape then
      match rest with
      | [] => none
      | next :: rest => if isSpecial escape next then (parse escape rest).map (.literal next :: ·) else none
    else (parse escape rest).map (atom c :: ·)

def accepts : List Atom → List Char → Bool
  | [],text => text.isEmpty
  | .any :: atoms,text => text.tails.any (accepts atoms)
  | .one :: atoms,text =>
    match text with
    | [] => false
    | _ :: text => accepts atoms text
  | .literal c :: atoms,text =>
    match text with
    | [] => false
    | first :: text => first == c && accepts atoms text

def escaped (escape : Char) (text : List Char) : List Char :=
  text.flatMap fun c => if isSpecial escape c then [escape,c] else [c]

variable {escape : Char} {atoms : List Atom}

theorem parse_plain (other : (c == escape) = false) (rest : List Char) :
    parse escape (c :: rest) = (parse escape rest).map (atom c :: ·) := by
  cases rest <;> simp [parse,other]

theorem parse_escaped (text rest : List Char) :
    parse escape (escaped escape text ++ rest) = (parse escape rest).map (text.map Atom.literal ++ ·) := by
  induction text with
  | nil => simp [escaped]
  | cons c text ih =>
    have step : escaped escape (c :: text) =
      (if isSpecial escape c then [escape,c] else [c]) ++ escaped escape text := flatMap_cons
    rw [step]
    by_cases special : isSpecial escape c = true
    · rw [if_pos special]
      simp only [cons_append,nil_append,parse,BEq.rfl,if_true,special,ih,Option.map_map]
      rfl
    · rw [if_neg special]
      simp only [isSpecial,Bool.or_eq_true,not_or,Bool.not_eq_true] at special
      obtain ⟨⟨other,percent⟩,underscore⟩ := special
      have plain : atom c = .literal c := by simp [atom,percent,underscore]
      rw [cons_append,nil_append,cons_append,parse_plain other,ih,Option.map_map,plain]
      rfl

theorem accepts_literals (word text : List Char) :
    accepts (word.map Atom.literal ++ atoms) text = true ↔ ∃ rest, text = word ++ rest ∧ accepts atoms rest = true := by
  induction word generalizing text with
  | nil => simp
  | cons c word ih =>
    cases text with
    | nil => simp [accepts]
    | cons first text =>
      simp only [map_cons,cons_append,accepts,Bool.and_eq_true,beq_iff_eq,ih,List.cons.injEq]
      constructor
      · rintro ⟨rfl,rest,rfl,ends⟩
        exact ⟨rest,⟨rfl,rfl⟩,ends⟩
      · rintro ⟨rest,⟨rfl,rfl⟩,ends⟩
        exact ⟨rfl,rest,rfl,ends⟩

theorem accepts_any (text : List Char) :
    accepts (.any :: atoms) text = true ↔ ∃ rest, rest <:+ text ∧ accepts atoms rest = true := by
  simp [accepts]

theorem accepts_contains (word text : List Char) :
    accepts (.any :: (word.map Atom.literal ++ [.any])) text = true ↔ word <:+: text := by
  rw [accepts_any]
  constructor
  · rintro ⟨tail,⟨before,rfl⟩,found⟩
    obtain ⟨rest,rfl,_⟩ := (accepts_literals word tail).mp found
    exact ⟨before,rest,by simp⟩
  · rintro ⟨before,rest,rfl⟩
    have ends : accepts [.any] rest = true := (accepts_any rest).mpr ⟨[],by simp,rfl⟩
    exact ⟨word ++ rest,⟨before,by simp⟩,(accepts_literals word _).mpr ⟨rest,rfl,ends⟩⟩

end Like
