import Mathlib.Data.List.Basic

/-! A queue whose items are numbered as they come in. The number of the first item grows as
items are taken out, so that a number names the same item for as long as it is queued. A
mark names the only item of its kind by its number. -/
namespace Sequenced
open List Nat Option
variable {α : Type}

def item (front : Nat) (items : List α) (seq : Nat) : Option α :=
  if front ≤ seq then items[seq - front]? else none

/-- The mark names the only queued item with `p`; without a mark there is none. -/
def Marks (p : α → Prop) (front : Nat) (items : List α) (mark : Option Nat) : Prop :=
  ∀ seq, mark = some seq ↔ ∃ x, item front items seq = some x ∧ p x

@[simp] theorem item_nil (front seq : Nat) : item front ([] : List α) seq = none := by simp [item]

theorem item_concat (front : Nat) (items : List α) (x : α) (seq : Nat) :
    item front (items ++ [x]) seq = if seq = front + items.length then some x else item front items seq := by
  unfold item
  by_cases within : front ≤ seq
  · simp only [within,↓reduceIte]
    by_cases last : seq = front + items.length
    · simp [last]
    · have other : seq - front ≠ items.length := by omega
      simp only [last,↓reduceIte]
      rcases Nat.lt_or_gt_of_ne other with before | past
      · rw [getElem?_append_left before]
      · rw [getElem?_eq_none (by simp; omega),getElem?_eq_none (by omega)]
  · have other : seq ≠ front + items.length := by omega
    simp [within,other]

theorem item_cons (front : Nat) (x : α) (items : List α) (seq : Nat) :
    item front (x :: items) seq = if seq = front then some x else item (front + 1) items seq := by
  unfold item
  by_cases first : seq = front
  · simp [first]
  · simp only [first,↓reduceIte]
    by_cases within : front ≤ seq
    · obtain ⟨gap,rfl⟩ : ∃ gap, seq = front + 1 + gap := ⟨seq - (front + 1),by omega⟩
      have first : front + 1 + gap - front = gap + 1 := by omega
      have later : front + 1 + gap - (front + 1) = gap := by omega
      simp [within,first,later,show front + 1 ≤ front + 1 + gap by omega]
    · simp [within,show ¬ front + 1 ≤ seq by omega]

theorem item_map (front : Nat) (items : List α) (f : α → α) (seq : Nat) :
    item front (items.map f) seq = (item front items seq).map f := by
  unfold item
  split <;> simp

theorem item_past {front : Nat} {items : List α} (past : seq < front) : item front items seq = none :=
  if_neg (Nat.not_le.mpr past)

theorem item_mem {front : Nat} {items : List α} (found : item front items seq = some x) : x ∈ items := by
  unfold item at found
  split at found
  · exact mem_of_getElem? found
  · cases found

theorem mem_item {items : List α} (front : Nat) (member : x ∈ items) : ∃ seq, item front items seq = some x := by
  obtain ⟨i,found⟩ := mem_iff_getElem?.mp member
  exact ⟨front + i,by simp [item,found]⟩

namespace Marks
variable {p : α → Prop} {front : Nat} {items : List α} {mark : Option Nat}

theorem nil (p : α → Prop) (front : Nat) : Marks p front [] none := fun seq => by simp

theorem none_iff (marks : Marks p front items mark) : mark = none ↔ ∀ x ∈ items, ¬ p x := by
  constructor
  · rintro rfl x member holds
    obtain ⟨seq,found⟩ := mem_item front member
    cases (marks seq).mpr ⟨x,found,holds⟩
  · intro absent
    cases mark with
    | none => rfl
    | some seq =>
      obtain ⟨x,found,holds⟩ := (marks seq).mp rfl
      exact absurd holds (absent x (item_mem found))

theorem concat_other (marks : Marks p front items mark) (other : ¬ p x) : Marks p front (items ++ [x]) mark := by
  intro seq
  rw [item_concat]
  split
  · rename_i last
    refine ⟨fun marked => ?_,fun found => ?_⟩
    · obtain ⟨y,found,_⟩ := (marks seq).mp marked
      simp [item,last] at found
    · obtain ⟨y,same,holds⟩ := found
      exact absurd (some.inj same ▸ holds) other
  · exact marks seq

theorem concat_first (marks : Marks p front items none) (holds : p x) :
    Marks p front (items ++ [x]) (some (front + items.length)) := by
  intro seq
  rw [item_concat]
  split
  · rename_i last
    simp [last,holds]
  · rename_i other
    have absent := marks seq
    simp only [reduceCtorEq,false_iff] at absent
    simp [absent,Ne.symm other]

theorem tail_other (marks : Marks p front (x :: items) mark) (other : ¬ p x) :
    mark ≠ some front ∧ Marks p (front + 1) items mark := by
  have first : mark ≠ some front := fun marked => by
    obtain ⟨y,found,holds⟩ := (marks front).mp marked
    rw [item_cons,if_pos rfl] at found
    exact other (some.inj found ▸ holds)
  refine ⟨first,fun seq => ?_⟩
  have here := marks seq
  rw [item_cons] at here
  split at here
  · rename_i same
    subst same
    simp [first,item_past (lt_succ_self seq)]
  · exact here

theorem tail_marked (marks : Marks p front (x :: items) mark) (holds : p x) :
    mark = some front ∧ Marks p (front + 1) items none := by
  have first : mark = some front := (marks front).mpr ⟨x,by rw [item_cons,if_pos rfl],holds⟩
  refine ⟨first,fun seq => ?_⟩
  have here := marks seq
  rw [item_cons,first] at here
  split at here
  · rename_i same
    simp [same,item_past (lt_succ_self front)]
  · rename_i other
    simpa [Ne.symm other] using here

theorem map (marks : Marks p front items mark) {f : α → α} (same : ∀ x, p (f x) ↔ p x) :
    Marks p front (items.map f) mark := by
  intro seq
  rw [marks seq,item_map]
  cases item front items seq <;> simp [same]

theorem modify_eq_map [DecidablePred p] (marks : Marks p front items (some seq)) (f : α → α) :
    items.modify (seq - front) f = items.map fun x => if p x then f x else x := by
  obtain ⟨marked,found,holds⟩ := (marks seq).mp rfl
  have within : front ≤ seq := by
    unfold item at found
    split at found
    · assumption
    · cases found
  refine ext_getElem? fun i => ?_
  rw [getElem?_modify,getElem?_map]
  cases here : items[i]? with
  | none => simp
  | some x =>
    have position : seq - front = i ↔ p x := by
      have at_i := marks (front + i)
      simp only [item,Nat.le_add_right,↓reduceIte,Nat.add_sub_cancel_left,here,some.injEq,
        exists_eq_left'] at at_i
      rw [← at_i]
      omega
    by_cases kind : p x
    · simp [kind,position.mpr kind]
    · simp [kind,mt position.mp kind]

end Marks
end Sequenced
