import Mathlib.Algebra.GroupWithZero.Nat
import Mathlib.Data.List.DropRight
import Mathlib.Data.List.TakeDrop

/-! Lists addressed by accumulated weight. With the UTF-8 length of a character as
its weight this is byte addressing of a text: a list index counts characters, an
offset counts bytes, and not every offset is a boundary. -/

namespace Weighted
open List
variable {α : Type} (w : α → Nat)

def weight (l : List α) : Nat := (l.map w).sum

def skip : Nat → List α → List α
  | 0, l => l
  | _ + 1, [] => []
  | n + 1, a :: l => skip (n + 1 - w a) l

def keep : Nat → List α → List α
  | 0, _ => []
  | _ + 1, [] => []
  | n + 1, a :: l => a :: keep (n + 1 - w a) l

def slice (l : List α) (start stop : Nat) : List α := keep w (stop - start) (skip w start l)

def boundary : List α → Nat → Bool
  | _, 0 => true
  | [], _ + 1 => false
  | a :: l, n + 1 => w a ≤ n + 1 && boundary l (n + 1 - w a)

/-- A slice that refuses reversed and misplaced ends. -/
def checkedSlice (l : List α) (start stop : Nat) : Option (List α) :=
  if start ≤ stop ∧ boundary w l start ∧ boundary w l stop then some (slice w l start stop) else none

@[simp] theorem weight_nil : weight w [] = 0 := rfl

@[simp] theorem weight_cons (a : α) (l : List α) : weight w (a :: l) = w a + weight w l := by
  simp [weight]

@[simp] theorem weight_append (a b : List α) : weight w (a ++ b) = weight w a + weight w b := by
  simp [weight]

variable {w}

theorem boundary_iff (l : List α) (n : Nat) : boundary w l n = true ↔ ∃ a b, l = a ++ b ∧ weight w a = n := by
  induction l generalizing n with
  | nil =>
    cases n with
    | zero => simp [boundary]
    | succ n =>
      simp only [boundary,Bool.false_eq_true,false_iff]
      rintro ⟨a,b,same,size⟩
      have := (append_eq_nil_iff.mp same.symm).1
      simp [this] at size
  | cons x l ih =>
    cases n with
    | zero => simp only [boundary,true_iff]; exact ⟨[],x :: l,rfl,rfl⟩
    | succ n =>
      simp only [boundary,Bool.and_eq_true,decide_eq_true_eq,ih]
      constructor
      · rintro ⟨fits,a,b,rfl,size⟩
        exact ⟨x :: a,b,rfl,by simp; omega⟩
      · rintro ⟨a,b,same,size⟩
        cases a with
        | nil => simp at size
        | cons y a =>
          simp only [cons_append,List.cons.injEq] at same
          obtain ⟨rfl,rfl⟩ := same
          simp only [weight_cons] at size
          exact ⟨by omega,a,b,rfl,by omega⟩

variable (positive : ∀ a, 0 < w a)

include positive

theorem weight_succ (x : α) (a : List α) : ∃ n, weight w (x :: a) = n + 1 ∧ n + 1 - w x = weight w a := by
  have px := positive x
  exact ⟨w x + weight w a - 1,by simp; omega,by omega⟩

theorem skip_weight (a b : List α) : skip w (weight w a) (a ++ b) = b := by
  induction a with
  | nil => simp [skip]
  | cons x a ih =>
    obtain ⟨n,hn,rest⟩ := weight_succ positive x a
    rw [hn,cons_append,skip,rest,ih]

theorem keep_weight (a b : List α) : keep w (weight w a) (a ++ b) = a := by
  induction a with
  | nil => simp [keep]
  | cons x a ih =>
    obtain ⟨n,hn,rest⟩ := weight_succ positive x a
    rw [hn,cons_append,keep,rest,ih]

/-- The middle part of a list is the slice between the offsets of its ends. -/
theorem slice_middle (a b c : List α) : slice w (a ++ b ++ c) (weight w a) (weight w (a ++ b)) = b := by
  rw [slice,append_assoc,skip_weight positive,weight_append,Nat.add_sub_cancel_left,keep_weight positive]

omit positive in
theorem boundary_weight (a b : List α) : boundary w (a ++ b) (weight w a) = true :=
  (boundary_iff _ _).mpr ⟨a,b,rfl,rfl⟩

theorem checkedSlice_middle (a b c : List α) :
    checkedSlice w (a ++ b ++ c) (weight w a) (weight w (a ++ b)) = some b := by
  have first : boundary w (a ++ b ++ c) (weight w a) = true := by
    rw [append_assoc]; exact boundary_weight _ _
  have second : boundary w (a ++ b ++ c) (weight w (a ++ b)) = true := boundary_weight _ _
  rw [checkedSlice,if_pos ⟨by simp,first,second⟩,slice_middle positive]

end Weighted
