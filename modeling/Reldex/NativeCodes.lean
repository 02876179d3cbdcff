import Reldex.Subwords
import Reldex.Text

/-! The code that classifies a server's message. The search takes one prefix after the other and
looks behind its first place only, so a code that stands first in the message can be missed. -/
namespace Reldex.OracleThin
open List Option

/-- `digits.parse::<i32>().ok()` for digits: none are no number, and the value has to fit. -/
def parseI32 (digits : Text) : Option Nat :=
  let value := digits.foldl (fun value digit => 10 * value + (digit.toNat - 48)) 0
  if digits = [] ∨ 2^31 ≤ value then none else some value

def findCode (message word : Text) : Option Nat := do
  let rest ← Subword.find word message
  parseI32 (rest.takeWhile Char.isDigit)

def codePrefixes : List Text := ["ORA-".toList,"PLS-".toList,"TNS-".toList]
def firstNativeCode (message : Text) : Option Nat := codePrefixes.findSome? (findCode message)

def codeBehind (message : Text) (position : Nat) (word : Text) : Option Nat :=
  if word <+: message.drop position then parseI32 (((message.drop position).drop word.length).takeWhile Char.isDigit) else none

def Leftmost (message : Text) (position : Nat) (word : Text) (code : Nat) : Prop :=
  word ∈ codePrefixes ∧ codeBehind message position word = some code ∧
    ∀ earlier < position, ∀ other ∈ codePrefixes, codeBehind message earlier other = none

def FirstPlace (message word : Text) (position : Nat) : Prop :=
  word <+: message.drop position ∧ ∀ earlier < position, ¬word <+: message.drop earlier

/-- The number stands behind the first place of a prefix, and behind the first place of a prefix that is
tried before stands none. -/
def Heard (message : Text) (code : Nat) : Prop :=
  ∃ front word back, codePrefixes = front ++ word :: back ∧
    (∃ position, FirstPlace message word position ∧ codeBehind message position word = some code) ∧
    ∀ other ∈ front, ∀ position, FirstPlace message other position → codeBehind message position other = none

variable {message word : Text} {position code : Nat}

theorem codeBehind_split (before rest : Text) :
    codeBehind (before ++ word ++ rest) before.length word = parseI32 (rest.takeWhile Char.isDigit) := by
  rw [codeBehind,append_assoc,drop_left,if_pos (prefix_append ..),drop_left]

theorem findCode_first (first : FirstPlace message word position) :
    findCode message word = codeBehind message position word := by
  obtain ⟨⟨rest,split⟩,alone⟩ := first
  have whole : message = message.take position ++ word ++ rest := by
    rw [append_assoc,split,take_append_drop]
  cases found : Subword.find word message with
  | none => exact absurd whole (Subword.find_none found _ _)
  | some after =>
    obtain ⟨before,same,minimal⟩ := Subword.find_some found
    have late : before.length ≤ position := (minimal _ _ whole).trans (length_take_le ..)
    have early : ¬before.length < position := fun less => alone _ less ⟨after,by rw [same,append_assoc,drop_left]⟩
    obtain rfl : before.length = position := Nat.le_antisymm late (Nat.le_of_not_lt early)
    rw [findCode,found,same,codeBehind_split]
    rfl

theorem findCode_iff : findCode message word = some code ↔
    ∃ position, FirstPlace message word position ∧ codeBehind message position word = some code := by
  constructor
  · intro found
    obtain ⟨rest,stands,parsed⟩ := bind_eq_some_iff.mp found
    obtain ⟨before,rfl,minimal⟩ := Subword.find_some stands
    refine ⟨before.length,⟨⟨rest,by simp⟩,fun earlier less => ?_⟩,by rw [codeBehind_split,parsed]⟩
    rintro ⟨after,split⟩
    have sooner := minimal ((before ++ word ++ rest).take earlier) after
      ((append_assoc ..).trans (by rw [split,take_append_drop])).symm
    have := length_take_le earlier (before ++ word ++ rest)
    omega
  · rintro ⟨position,first,here⟩
    rw [findCode_first first,here]

/-- A message without a code has none. The leftmost code is the answer if and only if its number is heard. -/
theorem first_code_is_leftmost_iff (message : Text) :
    ((∀ position, ∀ word ∈ codePrefixes, codeBehind message position word = none) → firstNativeCode message = none) ∧
      ∀ position word code, Leftmost message position word code →
        (firstNativeCode message = some code ↔ Heard message code) := by
  refine ⟨fun nowhere => List.findSome?_eq_none_iff.mpr fun word listed => ?_,fun _ _ code _ => ?_⟩
  · refine eq_none_iff_forall_not_mem.mpr fun code found => ?_
    obtain ⟨position,_,here⟩ := findCode_iff.mp found
    rw [nowhere position word listed] at here
    cases here
  · have silent (other : Text) : findCode message other = none ↔
        ∀ position, FirstPlace message other position → codeBehind message position other = none := by
      constructor
      · exact fun none position first => (findCode_first first).symm.trans none
      · refine fun none => eq_none_iff_forall_not_mem.mpr fun code found => ?_
        obtain ⟨position,first,here⟩ := findCode_iff.mp found
        cases (none position first).symm.trans here
    simp only [firstNativeCode,List.findSome?_eq_some_iff,findCode_iff,silent,Heard]

/-- The wrapped message starts with its code, and in the other one the same number stands behind both prefixes. -/
theorem wrapped_code_is_found : firstNativeCode "ORA-06550: line 1, column 7:\nPLS-00201".toList = some 6550 ∧
    firstNativeCode "PLS-2 ORA-2".toList = some 2 := by
  have first : FirstPlace "ORA-06550: line 1, column 7:\nPLS-00201".toList "ORA-".toList 0 := ⟨by decide,by decide⟩
  have second : FirstPlace "PLS-2 ORA-2".toList "ORA-".toList 6 := ⟨by decide,by decide⟩
  constructor
  · exact ((first_code_is_leftmost_iff _).2 0 "ORA-".toList 6550 ⟨by decide,by decide,by decide⟩).mpr
      ⟨[],_,_,rfl,⟨0,first,by decide⟩,by simp⟩
  · exact ((first_code_is_leftmost_iff _).2 0 "PLS-".toList 2 ⟨by decide,by decide,by decide⟩).mpr
      ⟨[],_,_,rfl,⟨6,second,by decide⟩,by simp⟩

/-- A prefix without a number hides the code behind it, and a code is passed over for one of a
prefix that is tried earlier. -/
theorem codes_are_hidden :
    Leftmost "ORA-: ORA-1".toList 6 "ORA-".toList 1 ∧ firstNativeCode "ORA-: ORA-1".toList = none ∧
      Leftmost "PLS-2 ORA-1".toList 0 "PLS-".toList 2 ∧ firstNativeCode "PLS-2 ORA-1".toList = some 1 := by
  refine ⟨⟨by decide,by decide,by decide⟩,by decide,⟨by decide,by decide,by decide⟩,by decide⟩

end Reldex.OracleThin
