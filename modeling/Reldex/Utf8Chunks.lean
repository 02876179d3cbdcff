import Mathlib.Data.List.Basic

/-! Decoding bytes as UTF-8 with recovery. Each step reads one character, or one sequence of
bytes that cannot be completed to a character; the longest such sequence is one error. Bytes of
whole characters can be cut where no continuation byte stands. -/
namespace Utf8
open List Nat

/-- What a byte at the start of a character announces; zero where none starts. -/
def width (first : Nat) : Nat :=
  if first < 0x80 then 1
  else if 0xC2 ≤ first ∧ first ≤ 0xDF then 2
  else if 0xE0 ≤ first ∧ first ≤ 0xEF then 3
  else if 0xF0 ≤ first ∧ first ≤ 0xF4 then 4
  else 0

def continues (byte : UInt8) : Bool := 0x80 ≤ byte.toNat && byte.toNat ≤ 0xBF

/-- The second byte also excludes overlong forms, surrogates and what is beyond Unicode. -/
def second (first : Nat) (byte : UInt8) : Bool :=
  (if first = 0xE0 then 0xA0 else if first = 0xF0 then 0x90 else 0x80) ≤ byte.toNat &&
    byte.toNat ≤ (if first = 0xED then 0x9F else if first = 0xF4 then 0x8F else 0xBF)

def payload (byte : UInt8) : Nat := byte.toNat % 64

/-- One character or one error, and the bytes after it. -/
def scan (first : UInt8) (rest : List UInt8) : Option Char × List UInt8 :=
  match width first.toNat,rest with
  | 1,rest => (some (.ofNat first.toNat),rest)
  | 2,a :: rest =>
    if continues a then (some (.ofNat (first.toNat % 32 * 64 + payload a)),rest) else (none,a :: rest)
  | 3,a :: rest =>
    if second first.toNat a then
      match rest with
      | b :: rest =>
        if continues b then (some (.ofNat (first.toNat % 16 * 4096 + payload a * 64 + payload b)),rest)
        else (none,b :: rest)
      | [] => (none,[])
    else (none,a :: rest)
  | 4,a :: rest =>
    if second first.toNat a then
      match rest with
      | b :: rest =>
        if continues b then
          match rest with
          | c :: rest =>
            if continues c then
              (some (.ofNat (first.toNat % 8 * 262144 + payload a * 4096 + payload b * 64 + payload c)),rest)
            else (none,c :: rest)
          | [] => (none,[])
        else (none,b :: rest)
      | [] => (none,[])
    else (none,a :: rest)
  | _,rest => (none,rest)

/-- The characters and errors of the bytes; every step reads at least one byte. -/
def chunks : Nat → List UInt8 → List (Option Char)
  | 0,_ => []
  | _,[] => []
  | fuel + 1,first :: rest => (scan first rest).1 :: chunks fuel (scan first rest).2

/-- The text with each error replaced, and whether there was one. -/
def decode (bytes : List UInt8) : List Char × Bool :=
  let read := chunks bytes.length bytes
  (read.map (·.getD '\uFFFD'),read.any Option.isNone)

def Whole (bytes : List UInt8) : Prop := ∃ text : List Char, bytes = text.flatMap String.utf8EncodeChar

/-- Back from a place to one where no byte of the kind stands. -/
def backOff (kind : UInt8 → Bool) (bytes : List UInt8) : Nat → Nat
  | 0 => 0
  | place + 1 => if bytes[place + 1]?.any kind then backOff kind bytes place else place + 1

theorem continues_ofNat (small : n < 256) : continues (.ofNat n) = decide (0x80 ≤ n ∧ n ≤ 0xBF) := by
  rw [continues,UInt8.toNat_ofNat',mod_eq_of_lt small,Bool.decide_and]

theorem continues_of_mod (n : Nat) : continues (.ofNat (n % 64 + 0x80)) = true := by
  rw [continues_ofNat (by omega),decide_eq_true_eq]
  omega

theorem not_continues_of_mod {lead size : Nat} (large : 0xC0 ≤ lead) (fits : lead + size ≤ 256) (present : 0 < size) (n : Nat) :
    continues (.ofNat (n % size + lead)) = false := by
  have := mod_lt n present
  rw [continues_ofNat (by omega),decide_eq_false_iff_not]
  omega

/-- A character starts where no continuation byte stands, and goes on for at most three of them. -/
theorem utf8EncodeChar_shape (c : Char) : ∃ first rest, String.utf8EncodeChar c = first :: rest ∧
    continues first = false ∧ (∀ byte ∈ rest, continues byte = true) ∧ rest.length < 4 := by
  fun_cases String.utf8EncodeChar with
  | case1 v ascii =>
    refine ⟨_,_,rfl,?_,by simp,by simp⟩
    have small : c.val.toNat ≤ 127 := ascii
    rw [continues_ofNat (by omega),decide_eq_false_iff_not]
    omega
  | case2 | case3 | case4 =>
    refine ⟨_,_,rfl,not_continues_of_mod (by simp) (by simp) (by simp) _,?_,by simp⟩
    simp only [forall_mem_cons,continues_of_mod]
    simp

theorem whole_nil : Whole [] := ⟨[],rfl⟩

theorem whole_cons (c : Char) (whole : Whole bytes) : Whole (String.utf8EncodeChar c ++ bytes) := by
  obtain ⟨text,rfl⟩ := whole
  exact ⟨c :: text,rfl⟩

theorem backOff_of_le (past : bytes.length ≤ place) : backOff continues bytes place = place := by
  cases place with
  | zero => rfl
  | succ place => simp [backOff,getElem?_eq_none past]

theorem backOff_inside (all : ∀ byte ∈ rest, continues byte = true) (inside : place ≤ rest.length) :
    backOff continues (first :: rest ++ more) place = 0 := by
  induction place with
  | zero => rfl
  | succ place ih =>
    have there : (first :: rest ++ more)[place + 1]? = some (rest.get ⟨place,inside⟩) := by
      rw [cons_append,getElem?_cons_succ,getElem?_append_left inside,getElem?_eq_getElem inside]
      rfl
    rw [backOff,there,Option.any_some,all _ (get_mem ..),if_pos rfl]
    exact ih (le_of_succ_le inside)

theorem backOff_behind (fresh : bytes[0]?.any continues = false) (place : Nat) :
    backOff continues (first :: rest ++ bytes) (rest.length + 1 + place) = rest.length + 1 + backOff continues bytes place := by
  have there (place : Nat) : (first :: rest ++ bytes)[rest.length + 1 + place]? = bytes[place]? := by
    rw [Nat.add_right_comm,cons_append,List.getElem?_cons_succ,List.getElem?_append_right (by omega),Nat.add_sub_cancel_left]
  induction place with
  | zero =>
    have none := there 0
    rw [Nat.add_zero] at none
    simp only [Nat.add_zero,backOff,none,fresh,reduceCtorEq,if_false]
  | succ place ih =>
    rw [← Nat.add_assoc,backOff,Nat.add_assoc,there,ih,backOff]
    split <;> rfl

/-- Bytes of whole characters are cut between two of them, less than a character before. -/
theorem Whole.backOff (whole : Whole bytes) (place : Nat) :
    Whole (bytes.take (backOff continues bytes place)) ∧ Whole (bytes.drop (backOff continues bytes place)) ∧
      place < backOff continues bytes place + 4 ∧ backOff continues bytes place ≤ place := by
  obtain ⟨text,rfl⟩ := whole
  induction text generalizing place with
  | nil => simp [backOff_of_le,whole_nil]
  | cons c text ih =>
    obtain ⟨first,rest,shape,starts,goes,short⟩ := utf8EncodeChar_shape c
    have all : flatMap String.utf8EncodeChar (c :: text) = first :: rest ++ text.flatMap String.utf8EncodeChar := by
      rw [flatMap_cons,shape]
    rcases Nat.lt_or_ge rest.length place with past | inside
    · obtain ⟨later,rfl⟩ := Nat.exists_eq_add_of_le past
      have fresh : (text.flatMap String.utf8EncodeChar)[0]?.any continues = false := by
        cases text with
        | nil => rfl
        | cons d text =>
          obtain ⟨next,_,shape,starts,_⟩ := utf8EncodeChar_shape d
          simp [shape,starts]
      obtain ⟨before,behind,near,below⟩ := ih later
      rw [all,backOff_behind fresh,← length_cons,take_length_add_append,drop_length_add_append,← shape]
      have size : (String.utf8EncodeChar c).length = rest.length + 1 := by rw [shape]; rfl
      exact ⟨whole_cons c before,behind,by omega,by omega⟩
    · rw [all,backOff_inside goes inside,← all]
      exact ⟨whole_nil,⟨_,rfl⟩,by omega,by omega⟩

end Utf8
