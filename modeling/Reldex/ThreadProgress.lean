import Reldex.Threads

/-! Progress of a pool. A thread that starts no others and is not resumed ends whatever the
others do; one that is resumed ends if it ends alone, for the others only interrupt it
finitely often. -/
namespace Pool
open Relation List
variable {σ β : Type} {resume : β → Option (Prog σ β)} {starts : Nat → Prog σ β → Prop}

/-- The named thread acts or goes on; no thread is started. -/
inductive Moves (resume : β → Option (Prog σ β)) (name : Nat) : Pool σ β → Pool σ β → Prop where
  | acts (pool : Pool σ β) {ready update next} (thread : pool.threads name = some (.act ready update next))
      (on : ready pool.state = true) :
      Moves resume name pool ⟨update pool.state,Function.update pool.threads name (some (next pool.state))⟩
  | resumes (pool : Pool σ β) (thread : pool.threads name = some (.ret value)) (again : resume value = some p) :
      Moves resume name pool ⟨pool.state,Function.update pool.threads name (some p)⟩

theorem Moves.step {next : Pool σ β} (moves : Moves resume name pool next) : Step resume starts pool next := by
  cases moves with
  | acts _ thread on => exact .acts pool name thread on
  | resumes _ thread again => exact .resumes pool name thread again

theorem Moves.other {other : Nat} {next : Pool σ β} (moves : Moves resume name pool next)
    (different : other ≠ name) : next.threads other = pool.threads other := by
  cases moves with
  | acts _ thread on => exact Function.update_of_ne different _ _
  | resumes _ thread again => exact Function.update_of_ne different _ _

def Stuck (resume : β → Option (Prog σ β)) (pool : Pool σ β) : Prop := ∀ name next, ¬Moves resume name pool next

theorem stuck_of (each : ∀ name p, pool.threads name = some p →
      (∃ value, p = .ret value ∧ resume value = none) ∨
      ∃ ready update next, p = .act ready update next ∧ ready pool.state = false) : Stuck resume pool := by
  intro name next moves
  cases moves with
  | acts _ thread on =>
    rcases each name _ thread with ⟨_,same,_⟩ | ⟨_,_,_,same,off⟩
    · cases same
    · cases same
      simp [off] at on
  | resumes _ thread again =>
    rcases each name _ thread with ⟨_,same,none⟩ | ⟨_,_,_,same,_⟩
    · cases same
      simp [none] at again
    · cases same

theorem Follows.able (follows : Follows protocol pool) (thread : pool.threads name = some p) :
    (∃ next, Moves resume name pool next) ∨ protocol.block name pool.state ∨
      ∃ value, p = .ret value ∧ resume value = none ∧ protocol.post name value pool.state := by
  have meets := follows.2.1 name p thread
  cases p with
  | ret value =>
    cases again : resume value with
    | none => exact .inr (.inr ⟨value,rfl,again,meets pool.state (protocol.reflexive name _)⟩)
    | some p => exact .inl ⟨_,.resumes pool thread again⟩
  | act ready update next =>
    cases on : ready pool.state with
    | false => exact .inr (.inl ((meets pool.state (protocol.reflexive name _)).1 on))
    | true => exact .inl ⟨_,.acts pool thread on⟩

theorem Follows.stuck (follows : Follows protocol pool)
    (stuck : Stuck resume pool) (thread : pool.threads name = some p) :
    protocol.block name pool.state ∨
      ∃ value, p = .ret value ∧ resume value = none ∧ protocol.post name value pool.state :=
  (follows.able thread).resolve_left fun ⟨next,moves⟩ => stuck name next moves

/-- Alone, the thread comes to an end or waits, however often it is resumed. -/
inductive Ends (resume : β → Option (Prog σ β)) : Prog σ β → σ → Prop where
  | ret (later : ∀ p, resume value = some p → Ends resume p s) : Ends resume (.ret value) s
  | act {ready update next} (later : ready s = true → Ends resume (next s) (update s)) :
      Ends resume (.act ready update next) s

theorem Ends.of_run (later : ∀ q, resume (p.run s).1 = some q → Ends resume q (p.run s).2) : Ends resume p s := by
  induction p generalizing s with
  | ret value => exact .ret later
  | act ready update next ih => exact .act fun _ => ih s later

theorem Ends.of_meets (reflexive : ∀ s, rely s s) (meets : p.Meets rely guar block post s)
    (later : ∀ value t, post value t → ∀ q, resume value = some q → Ends resume q t) : Ends resume p s := by
  induction p generalizing s with
  | ret value => exact .ret (later value s (meets s (reflexive s)))
  | act ready update next ih => exact .act fun on => ih s ((meets s (reflexive s)).2 on).2

section

def Move (resume : β → Option (Prog σ β)) (names : List Nat) (pool next : Pool σ β) : Prop :=
  ∃ name ∈ names, Moves resume name pool next

def Terminates (resume : β → Option (Prog σ β)) (pool : Pool σ β) : Prop :=
  Acc (fun next pool => ∃ name, Moves resume name pool next) pool

variable {protocol : Protocol resume starts} (main : Nat)

/-- Every step that another thread takes once these moved leads to runs that end. -/
private def Escapes (resume : β → Option (Prog σ β)) (names : List Nat) (pool : Pool σ β) : Prop :=
  ∀ moved, ReflTransGen (Move resume names) pool moved →
    ∀ name, name ∉ names → ∀ next, Moves resume name moved next → Terminates resume next

private theorem Escapes.after (escapes : Escapes resume names pool)
    (path : ReflTransGen (Move resume names) pool moved) : Escapes resume names moved :=
  fun later path' => escapes later (path.trans path')

private theorem move_threads (path : ReflTransGen (Move resume names) pool moved) (other : name ∉ names) :
    moved.threads name = pool.threads name := by
  induction path with
  | refl => rfl
  | tail _ step ih =>
    obtain ⟨mover,member,moves⟩ := step
    refine (moves.other ?_).trans ih
    rintro rfl
    exact other member

private theorem move_follows (follows : Follows protocol pool)
    (path : ReflTransGen (Move resume names) pool moved) : Follows protocol moved :=
  follows.reachable (path.lift id fun _ _ ⟨_,_,moves⟩ => moves.step)

private theorem move_wider (more : names ⊆ wider) (path : ReflTransGen (Move resume names) pool moved) :
    ReflTransGen (Move resume wider) pool moved :=
  path.lift id fun _ _ ⟨mover,member,moves⟩ => ⟨mover,more member,moves⟩

/-- The resumed thread alone, interrupted only by steps that end anyway. -/
private theorem main_terminates (escapes : Escapes resume [main] pool)
    (ends : ∀ p, pool.threads main = some p → Ends resume p pool.state) : Terminates resume pool := by
  cases thread : pool.threads main with
  | none =>
    refine .intro _ fun next ⟨name,moves⟩ => escapes pool .refl name ?_ next moves
    intro same
    obtain rfl := mem_singleton.mp same
    cases moves <;> simp_all
  | some p =>
    have ends := ends p thread
    generalize start : pool.state = s at ends
    induction ends generalizing pool with
    | ret later ih =>
      refine .intro _ fun next ⟨name,moves⟩ => ?_
      by_cases same : name = main
      · subst same
        have path := ReflTransGen.single (r := Move resume [name]) ⟨name,by simp,moves⟩
        cases moves with
        | acts _ other on => simp [thread] at other
        | resumes _ other again =>
          cases thread.symm.trans other
          exact ih _ again (escapes.after path) (fun q found => by
            simp only [Function.update_self,Option.some.injEq] at found
            exact found ▸ start ▸ later _ again) (Function.update_self _ _ _) start
      · exact escapes pool .refl name (by simpa using same) next moves
    | act later ih =>
      refine .intro _ fun next ⟨name,moves⟩ => ?_
      by_cases same : name = main
      · subst same
        have path := ReflTransGen.single (r := Move resume [name]) ⟨name,by simp,moves⟩
        cases moves with
        | acts _ other on =>
          cases thread.symm.trans other
          subst start
          exact ih on (escapes.after path) (fun q found => by
            simp only [Function.update_self,Option.some.injEq] at found
            exact found ▸ later on) (Function.update_self _ _ _) rfl
        | resumes _ other again => simp [thread] at other
      · exact escapes pool .refl name (by simpa using same) next moves

/-- Callers that are not resumed, the first of them counting most. -/
private theorem callers_terminate (callers : ∀ name value s, name ≠ main → protocol.post name value s →
      resume value = none)
    (ends : ∀ value s, protocol.post main value s → ∀ p, resume value = some p → Ends resume p s)
    (names : List Nat) (follows : Follows protocol pool)
    (escapes : Escapes resume (main :: names) pool) : Terminates resume pool := by
  induction names generalizing pool with
  | nil =>
    exact main_terminates main escapes fun p thread =>
      .of_meets (protocol.reflexive main) (follows.2.1 main p thread) ends
  | cons first rest ih =>
    have wider : main :: rest ⊆ main :: first :: rest := cons_subset_cons main (subset_cons_self first rest)
    -- a step of anybody but the first caller and those that already moved escapes as before
    have elsewhere : ∀ {pool moved next : Pool σ β} {name : Nat}, Escapes resume (main :: first :: rest) pool →
        ReflTransGen (Move resume (main :: rest)) pool moved → name ∉ main :: rest → name ≠ first →
        Moves resume name moved next → Terminates resume next := by
      intro pool moved next name escapes path other different moves
      refine escapes moved (move_wider wider path) name ?_ next moves
      simp only [mem_cons,not_or] at other ⊢
      exact ⟨other.1,different,other.2⟩
    by_cases listed : first ∈ main :: rest
    · refine ih follows fun moved path name other next moves => elsewhere escapes path other ?_ moves
      rintro rfl
      exact other listed
    cases thread : pool.threads first with
    | none =>
      refine ih follows fun moved path name other next moves => ?_
      by_cases same : name = first
      · subst same
        have absent := (move_threads path listed).trans thread
        cases moves <;> simp_all
      · exact elsewhere escapes path other same moves
    | some p =>
      induction p generalizing pool with
      | ret value =>
        refine ih follows fun moved path name other next moves => ?_
        by_cases same : name = first
        · subst same
          have present := (move_threads path listed).trans thread
          have kept := (move_follows follows path).2.1 name _ present moved.state (protocol.reflexive name _)
          have past := callers name value _ (fun same => listed (by simp [same])) kept
          cases moves <;> simp_all
        · exact elsewhere escapes path other same moves
      | act ready update after smaller =>
        refine ih follows fun moved path name other next moves => ?_
        by_cases same : name = first
        · subst same
          have present := (move_threads path listed).trans thread
          have path' := (move_wider wider path).tail ⟨name,by simp,moves⟩
          refine smaller moved.state (move_follows follows path') (escapes.after path') ?_
          cases moves with
          | acts _ found on =>
            cases present.symm.trans found
            exact Function.update_self _ _ _
          | resumes _ found again => simp [present] at found
        · exact elsewhere escapes path other same moves

/-- A pool of finitely many callers and one thread that ends alone comes to rest, in
whichever order they move. -/
theorem Follows.terminates (follows : Follows protocol pool)
    (finite : ∃ names : List Nat, ∀ name, name ∉ names → pool.threads name = none)
    (callers : ∀ name value s, name ≠ main → protocol.post name value s → resume value = none)
    (ends : ∀ value s, protocol.post main value s → ∀ p, resume value = some p → Ends resume p s) :
    Terminates resume pool := by
  obtain ⟨names,absent⟩ := finite
  refine callers_terminate main callers ends names follows fun moved path name other next moves => ?_
  have none := (move_threads path other).trans (absent name fun member => other (by simp [member]))
  cases moves <;> simp_all

end

theorem stays_started (path : ReflTransGen (Step resume starts) pool later)
    (started : (pool.threads name).isSome = true) : (later.threads name).isSome = true := by
  have updated : ∀ {threads : Nat → Option (Prog σ β)} {mover : Nat} {p : Prog σ β},
      (threads name).isSome = true → (Function.update threads mover (some p) name).isSome = true := by
    intro threads mover p started
    by_cases same : name = mover
    · rw [same,Function.update_self]
      rfl
    · rwa [Function.update_of_ne same]
  induction path with
  | refl => exact started
  | tail _ step ih =>
    cases step with
    | acts _ mover thread on => exact updated ih
    | resumes _ mover thread again => exact updated ih
    | begins _ mover fresh starting => exact updated ih

theorem finite_threads (path : ReflTransGen (Step resume starts) pool later)
    (finite : ∃ names : List Nat, ∀ name, name ∉ names → pool.threads name = none) :
    ∃ names : List Nat, ∀ name, name ∉ names → later.threads name = none := by
  induction path with
  | refl => exact finite
  | tail _ step ih =>
    obtain ⟨names,absent⟩ := ih
    have updated : ∀ {threads : Nat → Option (Prog σ β)} {mover p}, (∀ name, name ∉ names → threads name = none) →
        ∀ name, name ∉ mover :: names → Function.update threads mover p name = none := by
      intro threads mover p absent name other
      rw [mem_cons,not_or] at other
      rw [Function.update_of_ne other.1]
      exact absent name other.2
    cases step with
    | acts _ mover thread on => exact ⟨mover :: names,updated absent⟩
    | resumes _ mover thread again => exact ⟨mover :: names,updated absent⟩
    | begins _ mover fresh starting => exact ⟨mover :: names,updated absent⟩

end Pool
