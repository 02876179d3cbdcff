import Mathlib.Data.List.Basic

/-! Deterministic loops, one turn at a time. A turn either moves to the next state
or returns. `run` bounds the number of turns; `Ends` has no bound, and a rank
that every turn lowers makes the two agree. -/

inductive Turn (σ ρ : Type) where
  | next (state : σ)
  | done (result : ρ)

namespace Turn

def run (turn : σ → Turn σ ρ) : Nat → σ → Option ρ
  | 0, _ => none
  | fuel + 1, s =>
    match turn s with
    | .next t => run turn fuel t
    | .done result => some result

inductive Reaches (turn : σ → Turn σ ρ) : σ → σ → Prop where
  | refl : Reaches turn s s
  | step : turn s = .next t → Reaches turn t u → Reaches turn s u

def Ends (turn : σ → Turn σ ρ) (s : σ) (result : ρ) : Prop :=
  ∃ t, Reaches turn s t ∧ turn t = .done result

def Decreasing (turn : σ → Turn σ ρ) (rank : σ → Nat) : Prop :=
  ∀ s t, turn s = .next t → rank t < rank s

variable {turn : σ → Turn σ ρ}

theorem Reaches.single (moved : turn s = .next t) : Reaches turn s t := .step moved .refl

theorem Reaches.trans (first : Reaches turn s t) (second : Reaches turn t u) : Reaches turn s u := by
  induction first with
  | refl => exact second
  | step moved _ ih => exact .step moved (ih second)

theorem Reaches.invariant (property : σ → Prop) (preserved : ∀ s t, property s → turn s = .next t → property t)
    (path : Reaches turn s t) (initial : property s) : property t := by
  induction path with
  | refl => exact initial
  | step moved _ ih => exact ih (preserved _ _ initial moved)

/-- A loop is deterministic: what one run reaches, the ending run passes through. -/
theorem Ends.after (ended : Ends turn s result) (path : Reaches turn s t) : Ends turn t result := by
  induction path with
  | refl => exact ended
  | step moved _ ih =>
    apply ih
    obtain ⟨last,path,returned⟩ := ended
    cases path with
    | refl => rw [moved] at returned; cases returned
    | step again rest =>
      rw [moved] at again
      cases again
      exact ⟨last,rest,returned⟩

theorem Ends.before (path : Reaches turn s t) (ended : Ends turn t result) : Ends turn s result := by
  obtain ⟨last,rest,returned⟩ := ended
  exact ⟨last,path.trans rest,returned⟩

theorem Ends.unique (first : Ends turn s a) (second : Ends turn s b) : a = b := by
  obtain ⟨last,path,returned⟩ := first
  obtain ⟨other,rest,again⟩ := second.after path
  cases rest with
  | refl => rw [returned] at again; cases again; rfl
  | step moved _ => rw [returned] at moved; cases moved

theorem ends_of_run (h : run turn fuel s = some result) : Ends turn s result := by
  induction fuel generalizing s with
  | zero => simp [run] at h
  | succ fuel ih =>
    cases taken : turn s with
    | next t =>
      simp only [run,taken] at h
      exact .before (.single taken) (ih h)
    | done r =>
      simp only [run,taken,Option.some.injEq] at h
      exact ⟨s,.refl,h ▸ taken⟩

theorem run_total (decreasing : Decreasing turn rank) (enough : rank s < fuel) :
    ∃ result, run turn fuel s = some result := by
  induction fuel generalizing s with
  | zero => omega
  | succ fuel ih =>
    cases taken : turn s with
    | next t =>
      simp only [run,taken]
      exact ih (by have := decreasing s t taken; omega)
    | done r => exact ⟨r,by simp [run,taken]⟩

theorem run_iff_ends (decreasing : Decreasing turn rank) (enough : rank s < fuel) :
    run turn fuel s = some result ↔ Ends turn s result := by
  constructor
  · exact ends_of_run
  · intro ended
    obtain ⟨r,returned⟩ := run_total decreasing enough
    rw [returned,(ends_of_run returned).unique ended]

def after (turn : σ → Turn σ ρ) : Nat → σ → Option σ
  | 0, s => some s
  | n + 1, s =>
    match turn s with
    | .next t => after turn n t
    | .done _ => none

theorem after_succ_iff : after turn (n + 1) s = some u ↔ ∃ t, after turn n s = some t ∧ turn t = .next u := by
  induction n generalizing s with
  | zero => cases taken : turn s <;> simp [after,taken]
  | succ n ih =>
    cases taken : turn s with
    | next t =>
      have first (m : Nat) : after turn (m + 1) s = after turn m t := by simp only [after,taken]
      rw [first,ih,first]
    | done r => simp [after,taken]

variable {turn' : τ → Turn τ ρ'} (related : σ → τ → Prop)

/-- Two loops that keep a relation turn by turn keep it while both run. -/
theorem after_lockstep (start : related s s')
    (matched : ∀ m < n, ∀ t t' u u', after turn m s = some t → after turn' m s' = some t' → related t t' →
      turn t = .next u → turn' t' = .next u' → related u u')
    (ran : after turn n s = some t) (ran' : after turn' n s' = some t') : related t t' := by
  induction n generalizing t t' with
  | zero =>
    cases ran
    cases ran'
    exact start
  | succ n ih =>
    obtain ⟨before,ran,moved⟩ := after_succ_iff.mp ran
    obtain ⟨before',ran',moved'⟩ := after_succ_iff.mp ran'
    have kept := ih (fun m small => matched m (by omega)) ran ran'
    exact matched n (by omega) _ _ _ _ ran ran' kept moved moved'

/-- Forward simulation. A turn on the left is matched by any number of turns on the
right, so the right-hand loop may skip what the left one stutters over. -/
theorem Reaches.simulate
    (matched : ∀ s t s', related s s' → turn s = .next t → ∃ t', Reaches turn' s' t' ∧ related t t')
    (path : Reaches turn s t) (start : related s s') : ∃ t', Reaches turn' s' t' ∧ related t t' := by
  induction path generalizing s' with
  | refl => exact ⟨s',.refl,start⟩
  | step moved _ ih =>
    obtain ⟨middle,first,related⟩ := matched _ _ _ start moved
    obtain ⟨last,second,related⟩ := ih related
    exact ⟨last,first.trans second,related⟩

end Turn
