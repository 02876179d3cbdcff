import Mathlib.Data.List.Infix

/-! Searching a text for a word. `find` is the first place the word stands, `afterEach` the
texts that follow it at each place a search finds that goes on behind the last one. A word that
does not overlap itself is found wherever it stands. -/
namespace Subword
open List Nat
variable {α : Type} [DecidableEq α] {word text rest : List α}

/-- What follows the first place where the word stands. -/
def find (word : List α) : List α → Option (List α)
  | [] => if word = [] then some [] else none
  | c :: text => if word <+: c :: text then some ((c :: text).drop word.length) else find word text

/-- The texts after the places a repeated search finds; `fuel` bounds their number. -/
def afterEach (word : List α) : Nat → List α → List (List α)
  | 0,_ => []
  | fuel + 1,text =>
    match find word text with
    | none => []
    | some rest => rest :: afterEach word fuel rest

def Unbordered (word : List α) : Prop := ∀ i < word.length, 0 < i → ¬ word.drop i <+: word

instance (word : List α) : Decidable (Unbordered word) := by
  unfold Unbordered
  infer_instance

theorem find_some (found : find word text = some rest) : ∃ before, text = before ++ word ++ rest ∧
    ∀ earlier later, text = earlier ++ word ++ later → before.length ≤ earlier.length := by
  induction text with
  | nil =>
    unfold find at found
    split_ifs at found with empty
    cases found
    exact ⟨[],by simp [empty],fun _ _ _ => zero_le _⟩
  | cons c text ih =>
    unfold find at found
    split_ifs at found with starts
    · cases found
      exact ⟨[],(prefix_append_drop starts),fun _ _ _ => zero_le _⟩
    · obtain ⟨before,same,first⟩ := ih found
      refine ⟨c :: before,by rw [same]; rfl,fun earlier later split => ?_⟩
      cases earlier with
      | nil => exact absurd ⟨later,split.symm⟩ starts
      | cons d earlier =>
        rw [cons_append,cons_append,List.cons.injEq] at split
        exact succ_le_succ (first earlier later split.2)

theorem find_none (missing : find word text = none) (before after : List α) : text ≠ before ++ word ++ after := by
  induction text generalizing before with
  | nil =>
    rintro split
    obtain ⟨front,rfl⟩ := append_eq_nil_iff.mp split.symm
    obtain ⟨_,rfl⟩ := append_eq_nil_iff.mp front
    simp [find] at missing
  | cons c text ih =>
    unfold find at missing
    split_ifs at missing with starts
    intro split
    cases before with
    | nil => exact starts ⟨after,split.symm⟩
    | cons d before =>
      rw [cons_append,cons_append,List.cons.injEq] at split
      exact ih missing before split.2

theorem find_isSome_iff : (find word text).isSome = true ↔ word <:+: text := by
  cases found : find word text with
  | none => exact ⟨fun some => (Bool.false_ne_true some).elim,fun ⟨before,after,same⟩ => absurd same.symm (find_none found before after)⟩
  | some rest =>
    obtain ⟨before,same,_⟩ := find_some found
    exact ⟨fun _ => ⟨before,rest,same.symm⟩,fun _ => rfl⟩

omit [DecidableEq α] in
theorem infix_behind {front : List α} (absent : c ∉ front) (found : c :: word <:+: front ++ rest) : c :: word <:+: rest := by
  induction front with
  | nil => exact found
  | cons d front ih =>
    obtain ⟨other,absent⟩ := not_or.mp (mem_cons.not.mp absent)
    obtain here | later := infix_cons_iff.mp found
    · exact absurd (cons_prefix_cons.mp here).1 other
    · exact ih absent later

omit [DecidableEq α] in
theorem prefix_cut {front more : List α} (inWord : c ∉ word) (inFront : c ∉ front)
    (starts : word ++ c :: more <+: front ++ c :: rest) : word = front ∧ more <+: rest := by
  induction word generalizing front with
  | nil =>
    cases front with
    | nil => exact ⟨rfl,(cons_prefix_cons.mp starts).2⟩
    | cons d front => exact absurd (mem_cons.mpr (.inl (cons_prefix_cons.mp starts).1)) inFront
  | cons d word ih =>
    cases front with
    | nil => exact absurd (mem_cons.mpr (.inl (cons_prefix_cons.mp starts).1.symm)) inWord
    | cons e front =>
      obtain ⟨rfl,later⟩ := cons_prefix_cons.mp starts
      obtain ⟨rfl,found⟩ := ih (mt (mem_cons_of_mem _) inWord) (mt (mem_cons_of_mem _) inFront) later
      exact ⟨rfl,found⟩

omit [DecidableEq α] in
/-- Two places of such a word do not overlap. -/
theorem Unbordered.apart (unbordered : Unbordered word) {before after earlier later : List α}
    (same : before ++ (word ++ after) = earlier ++ (word ++ later)) (first : before.length < earlier.length) :
    ∃ between, earlier = before ++ word ++ between ∧ after = between ++ word ++ later := by
  obtain ⟨gap,rfl,gapped⟩ : ∃ gap, earlier = before ++ gap ∧ word ++ after = gap ++ (word ++ later) := by
    rcases append_eq_append_iff.mp same with ⟨gap,ends,rest⟩ | ⟨gap,ends,rest⟩
    · exact ⟨gap,ends,rest⟩
    · rw [ends,length_append] at first
      omega
  rw [length_append] at first
  rcases append_eq_append_iff.mp gapped with ⟨between,ends,rest⟩ | ⟨tail,ends,rest⟩
  · exact ⟨between,by rw [ends,append_assoc],by rw [rest,append_assoc]⟩
  · by_cases touching : tail = []
    · subst touching
      simp only [append_nil,nil_append] at ends rest
      exact ⟨[],by simp [ends],by simp [← rest]⟩
    · -- The rest of the first place would be a start of the word.
      have shorter : tail.length ≤ word.length := by simp [ends]
      have starts : tail <+: word := prefix_of_prefix_length_le ⟨after,rest.symm⟩ ⟨later,rfl⟩ shorter
      have dropped : word.drop gap.length = tail := by rw [ends,drop_left]
      have inside : gap.length < word.length := by
        rw [ends,length_append]
        have := length_pos_iff.mpr touching
        omega
      exact absurd (dropped ▸ starts) (unbordered gap.length inside (by omega))

theorem mem_afterEach (unbordered : Unbordered word) (present : word ≠ []) {fuel : Nat} (enough : text.length ≤ fuel) :
    rest ∈ afterEach word fuel text ↔ ∃ before, text = before ++ word ++ rest := by
  induction fuel generalizing text with
  | zero =>
    obtain rfl := length_eq_zero_iff.mp (le_zero.mp enough)
    simp [afterEach,present]
  | succ fuel ih =>
    unfold afterEach
    cases found : find word text with
    | none => simpa using fun before => by simpa using find_none found before rest
    | some next =>
      obtain ⟨before,same,first⟩ := find_some found
      have shorter : next.length ≤ fuel := by
        have := length_pos_iff.mpr present
        rw [same,length_append,length_append] at enough
        omega
      rw [mem_cons,ih shorter]
      constructor
      · rintro (rfl | ⟨between,later⟩)
        · exact ⟨before,same⟩
        · exact ⟨before ++ word ++ between,by rw [same,later]; simp⟩
      · rintro ⟨other,split⟩
        rcases lt_or_eq_of_le (first other rest split) with earlier | level
        · obtain ⟨between,_,later⟩ := unbordered.apart (by simpa using same.symm.trans split) earlier
          exact .inr ⟨between,later⟩
        · have both := same.symm.trans split
          rw [append_assoc,append_assoc] at both
          obtain ⟨_,tails⟩ := append_inj both level
          exact .inl (append_cancel_left tails).symm

end Subword
