import Mathlib.Algebra.GroupWithZero.Nat
import Mathlib.Algebra.BigOperators.Group.List.Basic

/-! Consecutive chunks of cells. Chunk `i` holds the cells from the sum of the earlier
sizes on; a cell is found by searching the first positions, or by a division when
every chunk between the first and the last has the size of the second. -/
namespace Chunks
open List Nat Option
variable {α : Type} {size : α → Nat} {xs : List α}

def cells (size : α → Nat) (xs : List α) : List (α × Nat) :=
  xs.flatMap fun x => (range (size x)).map (x,·)

def starts : Nat → List Nat → List Nat
  | _, [] => []
  | base, size :: sizes => base :: starts (base + size) sizes

def Holds (sizes : List Nat) (position i : Nat) : Prop :=
  ∃ size, sizes[i]? = some size ∧ (sizes.take i).sum ≤ position ∧ position < (sizes.take i).sum + size

/-- The chunks between the first and the last are as large as the second. -/
def Regular (sizes : List Nat) : Prop :=
  ∀ i, 1 ≤ i → i + 1 < sizes.length → sizes[i]? = sizes[1]?

@[simp] theorem starts_length (base : Nat) (sizes : List Nat) : (starts base sizes).length = sizes.length := by
  induction sizes generalizing base with
  | nil => rfl
  | cons size sizes ih => simp [starts,ih]

theorem starts_concat (base : Nat) (sizes : List Nat) (size : Nat) :
    starts base (sizes ++ [size]) = starts base sizes ++ [base + sizes.sum] := by
  induction sizes generalizing base with
  | nil => simp [starts]
  | cons first sizes ih => simp [starts,ih,add_assoc]

theorem starts_getElem? (base : Nat) (inside : i < sizes.length) :
    (starts base sizes)[i]? = some (base + (sizes.take i).sum) := by
  induction sizes generalizing base i with
  | nil => simp at inside
  | cons first sizes ih =>
    cases i with
    | zero => simp [starts]
    | succ i =>
      simp only [length_cons,Nat.add_lt_add_iff_right] at inside
      simp [starts,ih _ inside,Nat.add_assoc]

@[simp] theorem cells_nil : cells size [] = [] := rfl

theorem cells_cons (x : α) : cells size (x :: xs) = (range (size x)).map (x,·) ++ cells size xs := rfl

theorem cells_append (ys : List α) : cells size (xs ++ ys) = cells size xs ++ cells size ys :=
  flatMap_append ..

theorem cells_singleton_of_empty (empty : size x = 0) : cells size [x] = [] := by
  simp [cells,empty]

@[simp] theorem cells_length : (cells size xs).length = (xs.map size).sum := by
  induction xs with
  | nil => rfl
  | cons x xs ih => simp [cells_cons,ih]

theorem cells_getElem? {i position : Nat} (found : Holds (xs.map size) position i) :
    (cells size xs)[position]? = xs[i]?.map (·,position - ((xs.map size).take i).sum) := by
  obtain ⟨held,chunk,low,high⟩ := found
  induction xs generalizing i position with
  | nil => simp at chunk
  | cons x xs ih =>
    cases i with
    | zero =>
      simp only [map_cons,getElem?_cons_zero,some.injEq,take_zero,sum_nil] at chunk low high
      subst chunk
      rw [cells_cons,getElem?_append_left (by simpa using high)]
      simp [show position < size x by omega]
    | succ i =>
      simp only [map_cons,getElem?_cons_succ,take_succ_cons,sum_cons] at chunk low high ⊢
      have rest := @ih i (position - size x) chunk (by omega) (by omega)
      rw [cells_cons,getElem?_append_right (by simp; omega)]
      simp only [length_map,length_range,rest]
      congr 2
      ext1
      simp; omega

theorem holds_search (low : base ≤ position) (high : position < base + sizes.sum) :
    ∃ i, ((starts base sizes).takeWhile (decide <| · ≤ position)).length = i + 1 ∧ Holds sizes (position - base) i := by
  induction sizes generalizing base with
  | nil => simp at high; omega
  | cons size sizes ih =>
    rw [starts,takeWhile_cons_of_pos (by simpa using low)]
    by_cases inside : position < base + size
    · refine ⟨0,?_,size,by simp,by simp,by simp; omega⟩
      cases sizes with
      | nil => rfl
      | cons next sizes => rw [starts,takeWhile_cons_of_neg (by simpa using inside)]; rfl
    · obtain ⟨i,count,held,chunk,above,below⟩ := @ih (base + size) (by omega) (by simp at high; omega)
      refine ⟨i + 1,by simpa using count,held,by simpa using chunk,?_,?_⟩ <;>
        simp only [take_succ_cons,sum_cons] <;> omega

theorem starts_ge (base : Nat) (sizes : List Nat) : ∀ start ∈ starts base sizes, base ≤ start := by
  induction sizes generalizing base with
  | nil => simp [starts]
  | cons size sizes ih =>
    rintro start (_ | ⟨_,member⟩)
    · exact Nat.le_refl _
    · exact Nat.le_trans (Nat.le_add_right ..) (ih _ start member)

/-- The search stops behind the chunk that holds the position: every later one starts above it. -/
theorem Holds.search (held : Holds sizes position i) (base : Nat) :
    ((starts base sizes).takeWhile (decide <| · ≤ base + position)).length = i + 1 ∧
      ∀ start ∈ (starts base sizes).drop (i + 1), base + position < start := by
  obtain ⟨size,chunk,low,high⟩ := held
  induction sizes generalizing base position i with
  | nil => simp at chunk
  | cons first sizes ih =>
    rw [starts,takeWhile_cons_of_pos (by simp),length_cons,drop_succ_cons]
    cases i with
    | zero =>
      simp only [getElem?_cons_zero,some.injEq,take_zero,sum_nil] at chunk high
      have above : ∀ start ∈ starts (base + first) sizes, base + position < start := fun start member =>
        Nat.lt_of_lt_of_le (by omega) (starts_ge _ _ start member)
      refine ⟨?_,above⟩
      cases rest : starts (base + first) sizes with
      | nil => rfl
      | cons next rest' =>
        have := above next (by simp [rest])
        rw [takeWhile_cons_of_neg (by simpa using this),length_nil]
    | succ i =>
      simp only [getElem?_cons_succ,take_succ_cons,sum_cons] at chunk low high
      have later := @ih (position - first) i (base + first) chunk (by omega) (by omega)
      rw [show base + first + (position - first) = base + position by omega] at later
      exact ⟨by rw [later.1],later.2⟩

theorem Regular.take_sum (regular : Regular (first :: second :: rest)) (inside : i ≤ rest.length) :
    ((first :: second :: rest).take (i + 1)).sum = first + i * second := by
  induction i with
  | zero => simp
  | succ i ih =>
    have middle := regular (i + 1) (by omega) (by simp; omega)
    simp only [getElem?_cons_succ,getElem?_cons_zero] at middle
    rw [take_add_one,sum_append_nat,ih (by omega)]
    simp only [getElem?_cons_succ,middle,toList_some,sum_singleton]
    rw [succ_mul,add_assoc]

theorem Regular.holds_division
    (regular : Regular (first :: second :: rest)) (filled : 0 < second) (past : first ≤ position)
    (inside : position < (first :: second :: rest).sum) :
    Holds (first :: second :: rest) position (min (1 + (position - first) / second) (rest.length + 1)) := by
  have product := div_add_mod (position - first) second
  have remainder := mod_lt (position - first) filled
  generalize (position - first) / second = turns at *
  rw [mul_comm] at product
  by_cases short : turns < rest.length
  · -- a middle chunk, or the second: it has the common size
    rw [Nat.min_eq_left (by omega),Nat.add_comm 1]
    have same := regular (turns + 1) (by omega) (by simp; omega)
    have start := regular.take_sum (i := turns) (by omega)
    exact ⟨second,same,by omega,by omega⟩
  · -- the last chunk, whatever its size
    rw [Nat.min_eq_right (by omega)]
    have start := regular.take_sum (i := rest.length) (Nat.le_refl _)
    have bound : rest.length * second ≤ turns * second := mul_le_mul_right _ (by omega)
    have last : rest.length + 1 < (first :: second :: rest).length := by simp
    refine ⟨(first :: second :: rest)[rest.length + 1],getElem?_eq_getElem last,by omega,?_⟩
    have whole := sum_take_add_sum_drop (first :: second :: rest) (rest.length + 1)
    rw [drop_eq_getElem_cons last,sum_cons,drop_eq_nil_of_le (by simp),sum_nil] at whole
    omega

theorem Regular.concat (regular : Regular sizes)
    (last : 3 ≤ sizes.length → sizes.getLast? = sizes[1]?) (size : Nat) : Regular (sizes ++ [size]) := by
  intro i low high
  simp only [length_append,length_singleton,Nat.add_lt_add_iff_right] at high
  rw [getElem?_append_left high,getElem?_append_left (by omega)]
  by_cases middle : i + 1 < sizes.length
  · exact regular i low middle
  · have whole : sizes.length = i + 1 := by omega
    by_cases second : i = 1
    · rw [second]
    · rw [← last (by omega),getLast?_eq_getElem?,whole]
      rfl

end Chunks
