import Mathlib.Data.List.Nodup
import Mathlib.Algebra.GroupWithZero.Nat

/-! Tables of a relational store. `Keyed` holds rows that no two share a primary key: it is a
partial function from keys to rows, and each statement is known by what it does to `lookup`.
`Numbered` holds rows in the order of the numbers they were given on insertion; a number is
never given out twice. -/

structure Keyed {ρ κ : Type} (key : ρ → κ) where
  rows : List ρ
  unique : (rows.map key).Nodup

namespace Keyed
open List
variable {ρ κ : Type} [DecidableEq κ] {key : ρ → κ}

def empty : Keyed key := ⟨[],nodup_nil⟩
def lookup (t : Keyed key) (k : κ) : Option ρ := t.rows.find? fun row => key row == k
def has (t : Keyed key) (k : κ) : Bool := (t.lookup k).isSome

variable {t : Keyed key}

theorem key_of_lookup (found : t.lookup k = some row) : key row = k := by
  simpa using find?_some found

theorem find_of_mem {rows : List ρ} (unique : (rows.map key).Nodup) (member : row ∈ rows) :
    rows.find? (fun other => key other == key row) = some row := by
  induction rows with
  | nil => cases member
  | cons first rest ih =>
    rw [map_cons,nodup_cons] at unique
    rcases mem_cons.mp member with rfl | later
    · simp
    · have other : key first ≠ key row := fun same => unique.1 (same ▸ mem_map_of_mem later)
      rw [find?_cons_of_neg (by simpa using other)]
      exact ih unique.2 later

theorem mem_iff : row ∈ t.rows ↔ t.lookup (key row) = some row :=
  ⟨find_of_mem t.unique,mem_of_find?_eq_some⟩

theorem mem_of_lookup (found : t.lookup k = some row) : row ∈ t.rows :=
  mem_of_find?_eq_some found

theorem not_mem_keys (absent : t.lookup k = none) : k ∉ t.rows.map key := by
  intro member
  obtain ⟨row,found,rfl⟩ := mem_map.mp member
  rw [mem_iff.mp found] at absent
  cases absent

theorem appended_unique {t : Keyed key} (absent : t.lookup (key row) = none) : ((t.rows ++ [row]).map key).Nodup := by
  rw [map_append]
  exact t.unique.append (nodup_singleton _) (by simpa using not_mem_keys absent)

/-- `INSERT … ON CONFLICT DO NOTHING`. -/
def insert (t : Keyed key) (row : ρ) : Keyed key :=
  if absent : t.lookup (key row) = none then ⟨t.rows ++ [row],appended_unique absent⟩ else t

theorem lookup_insert (t : Keyed key) (row : ρ) (k : κ) :
    (t.insert row).lookup k = if key row = k then (t.lookup k).or (some row) else t.lookup k := by
  unfold insert
  split
  · rename_i absent
    rw [lookup,find?_append]
    by_cases same : key row = k
    · subst same
      simp [lookup]
    · simp [lookup,same]
  · rename_i present
    obtain ⟨old,found⟩ := Option.ne_none_iff_exists'.mp present
    split
    · rename_i same
      rw [← same,found]
      rfl
    · rfl

section

omit [DecidableEq κ] in
theorem replaced_unique {t : Keyed key} (keeps : ∀ row, key (change row) = key row) :
    ((t.rows.map change).map key).Nodup := by
  have same : key ∘ change = key := funext keeps
  rw [map_map,same]
  exact t.unique

/-- `UPDATE`, with a change that leaves the primary key. -/
def update (t : Keyed key) (change : ρ → ρ) (keeps : ∀ row, key (change row) = key row) : Keyed key :=
  ⟨t.rows.map change,replaced_unique keeps⟩

variable (t : Keyed key)

theorem lookup_update (keeps : ∀ row, key (change row) = key row) (k : κ) :
    (t.update change keeps).lookup k = (t.lookup k).map change := by
  simp only [lookup,update,find?_map]
  congr 2
  funext row
  simp [keeps]

def changeAt (key : ρ → κ) (k : κ) (change : ρ → ρ) (row : ρ) : ρ := if key row = k then change row else row

theorem changeAt_keeps (keeps : ∀ row, key (change row) = key row) (row : ρ) :
    key (changeAt key k change row) = key row := by
  unfold changeAt
  split
  · exact keeps row
  · rfl

/-- `INSERT … ON CONFLICT DO UPDATE`. -/
def upsert (t : Keyed key) (row : ρ) (change : ρ → ρ) (keeps : ∀ old, key (change old) = key old) : Keyed key :=
  if t.has (key row) then t.update (changeAt key (key row) change) (changeAt_keeps keeps) else t.insert row

theorem lookup_upsert (row : ρ) {change : ρ → ρ} (keeps : ∀ old, key (change old) = key old) (k : κ) :
    (t.upsert row change keeps).lookup k =
      if key row = k then some (((t.lookup k).map change).getD row) else t.lookup k := by
  unfold upsert
  by_cases same : key row = k
  · subst same
    rw [has]
    cases found : t.lookup (key row) with
    | none => simp [lookup_insert,found]
    | some old => simp [lookup_update,found,changeAt,key_of_lookup found]
  · simp only [same,↓reduceIte]
    split
    · rw [lookup_update]
      cases found : t.lookup k with
      | none => rfl
      | some old =>
        have other : key old ≠ key row := fun eq => same (eq ▸ key_of_lookup found)
        simp [changeAt,other]
    · rw [lookup_insert,if_neg same]

theorem has_insert (row : ρ) (k : κ) : (t.insert row).has k = (decide (key row = k) || t.has k) := by
  rw [has,has,lookup_insert]
  by_cases same : key row = k <;> simp [same]

theorem has_update (keeps : ∀ row, key (change row) = key row) (k : κ) : (t.update change keeps).has k = t.has k := by
  rw [has,has,lookup_update,Option.isSome_map]

theorem has_upsert (row : ρ) (keeps : ∀ old, key (change old) = key old) (k : κ) :
    (t.upsert row change keeps).has k = (decide (key row = k) || t.has k) := by
  rw [has,has,lookup_upsert]
  by_cases same : key row = k <;> simp [same]

omit [DecidableEq κ] in
theorem mem_update {t : Keyed key} (keeps : ∀ row, key (change row) = key row) :
    row ∈ (t.update change keeps).rows ↔ ∃ old ∈ t.rows, change old = row := mem_map

theorem mem_upsert {t : Keyed key} (keeps : ∀ old, key (change old) = key old)
    (member : row ∈ (t.upsert new change keeps).rows) :
    row = new ∨ row ∈ t.rows ∨ ∃ old ∈ t.rows, key old = key new ∧ row = change old := by
  have found := mem_iff.mp member
  rw [lookup_upsert] at found
  split at found
  · rename_i same
    cases held : t.lookup (key row) with
    | none => exact .inl (by simpa [held] using found.symm)
    | some old =>
      refine .inr (.inr ⟨old,mem_of_lookup held,(key_of_lookup held).trans same.symm,?_⟩)
      simpa [held] using found.symm
  · exact .inr (.inl (mem_iff.mpr found))

end

def delete (t : Keyed key) (p : ρ → Bool) : Keyed key :=
  ⟨t.rows.filter fun row => !p row,t.unique.sublist (filter_sublist.map key)⟩

omit [DecidableEq κ] in
theorem mem_delete {t : Keyed key} : row ∈ (t.delete p).rows ↔ row ∈ t.rows ∧ p row = false := by
  simp [delete]

theorem lookup_delete (t : Keyed key) (p : ρ → Bool) (k : κ) :
    (t.delete p).lookup k = (t.lookup k).filter fun row => !p row := by
  cases found : t.lookup k with
  | none =>
    refine find?_eq_none.mpr fun row member => ?_
    exact find?_eq_none.mp found row (mem_delete.mp member).1
  | some row =>
    have held := mem_of_lookup found
    have same := key_of_lookup found
    cases doomed : p row with
    | false =>
      rw [Option.filter_some_pos (by simp [doomed]),← same]
      exact mem_iff.mp (mem_delete.mpr ⟨held,doomed⟩)
    | true =>
      rw [Option.filter_some_neg (by simp [doomed])]
      refine find?_eq_none.mpr fun other member under => ?_
      obtain ⟨present,spared⟩ := mem_delete.mp member
      have other_is : other = row := by
        have there := mem_iff.mp present
        rw [show key other = k by simpa using under,found] at there
        exact (Option.some.inj there).symm
      rw [other_is,doomed] at spared
      cases spared

theorem has_delete (t : Keyed key) (k k' : κ) : (t.delete (key · == k)).has k' = (t.has k' && decide (k' ≠ k)) := by
  rw [has,has,lookup_delete]
  cases found : t.lookup k' with
  | none => rfl
  | some row =>
    have same := key_of_lookup found
    by_cases doomed : k' = k <;> simp [same,doomed]

end Keyed

/-- Rows numbered as they come in, with the largest number ever given out. -/
structure Numbered (ρ : Type) where
  rows : List (Nat × ρ)
  last : Nat
  ordered : (rows.map Prod.fst).Pairwise (· < ·)
  issued : ∀ id ∈ rows.map Prod.fst, id ≤ last

namespace Numbered
open List
variable {ρ : Type}

def empty : Numbered ρ := ⟨[],0,.nil,by simp⟩

variable (t : Numbered ρ)

theorem appended_ordered (row : ρ) : ((t.rows ++ [(t.last + 1,row)]).map Prod.fst).Pairwise (· < ·) := by
  rw [map_append,pairwise_append]
  refine ⟨t.ordered,pairwise_singleton _ _,fun id member next found => ?_⟩
  have : next = t.last + 1 := by simpa using found
  have := t.issued id member
  omega

theorem appended_issued (row : ρ) : ∀ id ∈ (t.rows ++ [(t.last + 1,row)]).map Prod.fst, id ≤ t.last + 1 := by
  intro id member
  rw [map_append,mem_append] at member
  rcases member with old | new
  · exact Nat.le_succ_of_le (t.issued id old)
  · simp at new
    omega

def insert (t : Numbered ρ) (row : ρ) : Numbered ρ :=
  ⟨t.rows ++ [(t.last + 1,row)],t.last + 1,t.appended_ordered row,t.appended_issued row⟩

def delete (t : Numbered ρ) (p : Nat × ρ → Bool) : Numbered ρ where
  rows := t.rows.filter fun row => !p row
  last := t.last
  ordered := t.ordered.sublist (filter_sublist.map _)
  issued id member := t.issued id ((filter_sublist.map _).subset member)

def matching (t : Numbered ρ) (p : ρ → Bool) : List (Nat × ρ) := t.rows.filter fun row => p row.2

/-- `SELECT id … WHERE p ORDER BY id ASC LIMIT k`. -/
def oldest (t : Numbered ρ) (p : ρ → Bool) (k : Nat) : List Nat := ((t.matching p).take k).map Prod.fst

/-- `SELECT … WHERE p AND id < before ORDER BY id DESC LIMIT k`. -/
def newest (t : Numbered ρ) (p : ρ → Bool) (before : Option Nat) (k : Nat) : List (Nat × ρ) :=
  (((t.matching p).filter fun row => before.all (row.1 < ·)).reverse).take k

theorem ids_nodup : (t.rows.map Prod.fst).Nodup := t.ordered.imp Nat.ne_of_lt

theorem matching_ordered (p : ρ → Bool) : ((t.matching p).map Prod.fst).Pairwise (· < ·) :=
  t.ordered.sublist (filter_sublist.map _)

@[simp] theorem matching_insert (row : ρ) (p : ρ → Bool) :
    (t.insert row).matching p = t.matching p ++ if p row then [(t.last + 1,row)] else [] := by
  simp only [matching,insert,filter_append]
  cases held : p row <;> simp [held]

theorem matching_delete (p : ρ → Bool) (doomed : Nat × ρ → Bool) :
    (t.delete doomed).matching p = (t.matching p).filter fun row => !doomed row := by
  simp [matching,delete,filter_filter,Bool.and_comm]

theorem filter_take [DecidableEq β] {f : α → β} {l : List α} (nodup : (l.map f).Nodup) (k : Nat) :
    l.filter (fun x => !decide (f x ∈ (l.take k).map f)) = l.drop k := by
  conv_lhs => arg 2; rw [← take_append_drop k l]
  rw [← take_append_drop k l,map_append] at nodup
  have apart := disjoint_of_nodup_append nodup
  have none_kept : (l.take k).filter (fun x => !decide (f x ∈ (l.take k).map f)) = [] := by
    refine filter_eq_nil_iff.mpr fun x member => ?_
    simpa using mem_map_of_mem (f := f) member
  have all_kept : (l.drop k).filter (fun x => !decide (f x ∈ (l.take k).map f)) = l.drop k := by
    refine filter_eq_self.mpr fun x member => ?_
    have := fun found => apart found (mem_map_of_mem member)
    simpa using this
  rw [filter_append,none_kept,all_kept,nil_append]

theorem matching_delete_oldest (p : ρ → Bool) (k : Nat) :
    (t.delete fun row => row.1 ∈ t.oldest p k).matching p = (t.matching p).drop k := by
  rw [matching_delete]
  exact filter_take ((t.matching_ordered p).imp Nat.ne_of_lt) k

theorem matching_delete_oldest_other (apart : ∀ row, q row = true → p row = false) (k : Nat) :
    (t.delete fun row => row.1 ∈ t.oldest p k).matching q = t.matching q := by
  rw [matching_delete]
  refine filter_eq_self.mpr fun row member => ?_
  obtain ⟨present,held⟩ := mem_filter.mp member
  suffices row.1 ∉ t.oldest p k by simpa using this
  intro taken
  obtain ⟨other,old,same⟩ := mem_map.mp taken
  obtain ⟨there,has⟩ := mem_filter.mp (mem_of_mem_take old)
  have one : other = row := inj_on_of_nodup_map t.ids_nodup there present same
  rw [one,apart row.2 held] at has
  cases has

theorem filter_below (descending : (l.map Prod.fst).Pairwise (· > ·))
    {row : Nat × ρ} (split : l = first ++ row :: rest) : l.filter (fun other => other.1 < row.1) = rest := by
  subst split
  rw [map_append,map_cons,pairwise_append] at descending
  obtain ⟨-,later,across⟩ := descending
  have above : first.filter (fun other => other.1 < row.1) = [] := by
    refine filter_eq_nil_iff.mpr fun other member => ?_
    have := across other.1 (mem_map_of_mem member) row.1 mem_cons_self
    simp only [decide_eq_true_eq]
    omega
  have below : rest.filter (fun other => other.1 < row.1) = rest := by
    refine filter_eq_self.mpr fun other member => ?_
    have := (pairwise_cons.mp later).1 other.1 (mem_map_of_mem member)
    simp only [decide_eq_true_eq]
    omega
  rw [filter_append,above,filter_cons_of_neg (by simp),below,nil_append]

/-- One page after the other, each from before the last row of the one before it. -/
def pages (t : Numbered ρ) (p : ρ → Bool) : Option Nat → List Nat → List (Nat × ρ)
  | _, [] => []
  | before, k :: sizes =>
    let page := t.newest p before k
    match page.getLast? with
    | none => page
    | some row => page ++ t.pages p (some row.1) sizes

theorem newest_of_rest {t : Numbered ρ}
    (left : ((t.matching p).filter fun row => before.all (row.1 < ·)).reverse = rest) (k : Nat) :
    t.newest p before k = rest.take k := by
  rw [newest,left]

/-- Successive pages of any positive sizes are the newest rows, each once and newest first. -/
theorem pages_eq (t : Numbered ρ) (p : ρ → Bool) {sizes : List Nat} (positive : ∀ k ∈ sizes, 0 < k) :
    t.pages p none sizes = (t.matching p).reverse.take sizes.sum := by
  have descending : ((t.matching p).reverse.map Prod.fst).Pairwise (· > ·) := by
    rw [map_reverse,pairwise_reverse]
    exact t.matching_ordered p
  -- What is left to read before a number is what follows the rows already read.
  suffices step : ∀ (sizes : List Nat) (before : Option Nat) (read rest : List (Nat × ρ)), (∀ k ∈ sizes, 0 < k) →
      (t.matching p).reverse = read ++ rest →
      ((t.matching p).filter fun row => before.all (row.1 < ·)).reverse = rest →
      t.pages p before sizes = rest.take sizes.sum from
    step sizes none [] _ positive rfl (by simp)
  intro sizes
  induction sizes with
  | nil => intros; simp [pages]
  | cons k sizes ih =>
    intro before read rest positive split left
    have size : 0 < k := positive k mem_cons_self
    rw [pages,newest_of_rest left]
    rcases eq_nil_or_concat (rest.take k) with none_left | ⟨first,row,page⟩
    · have empty : rest = [] := by
        rcases take_eq_nil_iff.mp none_left with zero | nil
        · omega
        · exact nil
      simp [empty]
    · rw [concat_eq_append] at page
      have whole : (t.matching p).reverse = (read ++ first) ++ row :: rest.drop k := by
        rw [split,append_assoc,append_cons first,← page,take_append_drop]
      have below := filter_below descending whole
      have next := ih (some row.1) (read ++ first ++ [row]) (rest.drop k) (fun k member => positive k (.tail _ member))
        (by simpa using whole) (by simpa [filter_reverse] using below)
      simp only [page,getLast?_concat,next,sum_cons,take_add]

end Numbered
