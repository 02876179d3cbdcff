import Mathlib.Logic.Relation
import Mathlib.Data.List.Induction

/-! Threads over a shared state. A program is a tree of atomic actions; between two of
them other threads act. `Meets` is a weakest precondition under what the others may do,
and a pool of threads that each meet theirs keeps to it in every interleaving. -/

/-- `act` waits until it is ready, then updates the state it finds and goes on from it. -/
inductive Prog (σ α : Type) where
  | ret (value : α)
  | act (ready : σ → Bool) (update : σ → σ) (next : σ → Prog σ α)

namespace Prog
variable {σ α β : Type}

def bind : Prog σ α → (α → Prog σ β) → Prog σ β
  | .ret value, rest => rest value
  | .act ready update next, rest => .act ready update fun s => (next s).bind rest

instance : Monad (Prog σ) where
  pure := .ret
  bind := bind

def modifyGet (change : σ → α × σ) : Prog σ α :=
  .act (fun _ => true) (fun s => (change s).2) fun s => .ret (change s).1

def modify (change : σ → σ) : Prog σ Unit := .act (fun _ => true) change fun _ => .ret ()
def gets (read : σ → α) : Prog σ α := .act (fun _ => true) id fun s => .ret (read s)

def await (ready : σ → Bool) (change : σ → α × σ) : Prog σ α :=
  .act ready (fun s => (change s).2) fun s => .ret (change s).1

/-- The program alone: nothing acts in between and nothing waits. -/
def run : Prog σ α → σ → α × σ
  | .ret value, s => (value,s)
  | .act _ update next, s => (next s).run (update s)

def ready : Prog σ α → σ → Bool
  | .ret _, _ => true
  | .act ready update next, s => ready s && (next s).ready (update s)

@[simp] theorem run_pure (value : α) (s : σ) : (pure value : Prog σ α).run s = (value,s) := rfl

@[simp] theorem run_bind (p : Prog σ α) (rest : α → Prog σ β) (s : σ) :
    (p >>= rest).run s = (rest (p.run s).1).run (p.run s).2 := by
  change (p.bind rest).run s = _
  induction p generalizing s with
  | ret value => rfl
  | act ready update next ih => exact ih s (update s)

@[simp] theorem run_modifyGet (change : σ → α × σ) (s : σ) : (modifyGet change).run s = change s := rfl

@[simp] theorem run_modify (change : σ → σ) (s : σ) : (modify change).run s = ((),change s) := rfl

@[simp] theorem run_gets (read : σ → α) (s : σ) : (gets read).run s = (read s,s) := rfl

/-- Every action of the program, from whatever state, is one of the allowed ones. -/
def Only (allowed : σ → σ → Prop) : Prog σ α → Prop
  | .ret _ => True
  | .act ready update next => ∀ s, ready s = true ∧ allowed s (update s) ∧ (next s).Only allowed

/-- Every action the program gets to take is an allowed one, and what it returns is as
said; it may wait. -/
def Acts (allowed : σ → σ → Prop) (yields : α → Prop) : Prog σ α → Prop
  | .ret value => yields value
  | .act ready update next => ∀ s, ready s = true → allowed s (update s) ∧ (next s).Acts allowed yields

/-- What the program does from `s` on: others move by `rely` before each of its actions,
each action is one of `guar`, where it waits `block` holds, and it returns with `post`. -/
def Meets (rely guar : σ → σ → Prop) (block : σ → Prop) : Prog σ α → (α → σ → Prop) → σ → Prop
  | .ret value, post, s => ∀ t, rely s t → post value t
  | .act ready update next, post, s => ∀ t, rely s t →
    (ready t = false → block t) ∧
    (ready t = true → guar t (update t) ∧ (next t).Meets rely guar block post (update t))

section
variable {rely guar : σ → σ → Prop} {block : σ → Prop} {post : α → σ → Prop} {p : Prog σ α}

theorem Meets.after (transitive : ∀ s t u, rely s t → rely t u → rely s u) (moved : rely s t)
    (meets : p.Meets rely guar block post s) : p.Meets rely guar block post t := by
  cases p with
  | ret value => exact fun u later => meets u (transitive s t u moved later)
  | act ready update next => exact fun u later => meets u (transitive s t u moved later)

theorem Meets.mono {strong : α → σ → Prop} (meets : p.Meets rely guar block strong s)
    (weaker : ∀ value t, strong value t → post value t) : p.Meets rely guar block post s := by
  induction p generalizing s with
  | ret value => exact fun t moved => weaker value t (meets t moved)
  | act ready update next ih =>
    intro t moved
    obtain ⟨waits,acts⟩ := meets t moved
    exact ⟨waits,fun on => ⟨(acts on).1,ih t (acts on).2⟩⟩

theorem Meets.bind (reflexive : ∀ s, rely s s) {rest : α → Prog σ β} {post : β → σ → Prop}
    (meets : p.Meets rely guar block (fun value => (rest value).Meets rely guar block post) s) :
    (p >>= rest).Meets rely guar block post s := by
  change (p.bind rest).Meets rely guar block post s
  induction p generalizing s with
  | ret value => exact meets s (reflexive s)
  | act ready update next ih =>
    intro t moved
    obtain ⟨waits,acts⟩ := meets t moved
    exact ⟨waits,fun on => ⟨(acts on).1,ih t (acts on).2⟩⟩

theorem Meets.await {ready : σ → Bool} {change : σ → α × σ} (waits : ∀ t, rely s t → ready t = false → block t)
    (step : ∀ t, rely s t → ready t = true → guar t (change t).2 ∧ ∀ u, rely (change t).2 u → post (change t).1 u) :
    (await ready change).Meets rely guar block post s :=
  fun t moved => ⟨waits t moved,fun on =>
    ⟨(step t moved on).1,fun u later => (step t moved on).2 u later⟩⟩

end

variable {allowed : σ → σ → Prop} {yields : α → Prop}

theorem Acts.pure {value : α} (holds : yields value) : (pure value : Prog σ α).Acts allowed yields := holds

theorem Acts.bind {p : Prog σ α} {rest : α → Prog σ β} {later : β → Prop} (first : p.Acts allowed yields)
    (next : ∀ value, yields value → (rest value).Acts allowed later) : (p >>= rest).Acts allowed later := by
  change (p.bind rest).Acts allowed later
  induction p with
  | ret value => exact next value first
  | act ready update after ih => exact fun s on => ⟨(first s on).1,ih s (first s on).2⟩

theorem Only.acts {p : Prog σ α} (only : p.Only allowed) : p.Acts allowed fun _ => True := by
  induction p with
  | ret value => trivial
  | act ready update next ih => exact fun s _ => ⟨(only s).2.1,ih s (only s).2.2⟩

theorem Only.modifyGet {change : σ → α × σ} (step : ∀ s, allowed s (change s).2) :
    (modifyGet change).Only allowed := fun s => ⟨rfl,step s,trivial⟩

theorem Only.modify {change : σ → σ} (step : ∀ s, allowed s (change s)) : (modify change).Only allowed :=
  fun s => ⟨rfl,step s,trivial⟩

end Prog

/-- A shared state and the threads that act on it, by name. -/
structure Pool (σ β : Type) where
  state : σ
  threads : Nat → Option (Prog σ β)

namespace Pool
variable {σ β : Type}

/-- One step: a ready thread acts, a thread that returned goes on as `resume` says, or a
thread is started under a name not yet used. -/
inductive Step (resume : β → Option (Prog σ β)) (starts : Nat → Prog σ β → Prop) :
    Pool σ β → Pool σ β → Prop where
  | acts (pool : Pool σ β) (name : Nat) {ready update next}
      (thread : pool.threads name = some (.act ready update next)) (on : ready pool.state = true) :
      Step resume starts pool ⟨update pool.state,Function.update pool.threads name (some (next pool.state))⟩
  | resumes (pool : Pool σ β) (name : Nat) (thread : pool.threads name = some (.ret value))
      (again : resume value = some p) :
      Step resume starts pool ⟨pool.state,Function.update pool.threads name (some p)⟩
  | begins (pool : Pool σ β) (name : Nat) (fresh : pool.threads name = none) (starting : starts name p) :
      Step resume starts pool ⟨pool.state,Function.update pool.threads name (some p)⟩

variable {resume : β → Option (Prog σ β)} {starts : Nat → Prog σ β → Prop} {p : Prog σ β} {pool : Pool σ β} (name : Nat)

theorem alone (thread : pool.threads name = some p) (ready : p.ready pool.state = true) :
    Relation.ReflTransGen (Step resume starts) pool
      ⟨(p.run pool.state).2,Function.update pool.threads name (some (.ret (p.run pool.state).1))⟩ := by
  induction p generalizing pool with
  | ret value =>
    have same : Function.update pool.threads name (some (.ret value)) = pool.threads :=
      Function.update_eq_self_iff.mpr thread.symm
    simp only [Prog.run,same]
    exact .refl
  | act waits update next ih =>
    obtain ⟨on,rest⟩ := Bool.and_eq_true_iff.mp ready
    refine .head (.acts pool name thread on) ?_
    let acted : Pool σ β := ⟨update pool.state,Function.update pool.threads name (some (next pool.state))⟩
    have own : acted.threads name = some (next pool.state) := Function.update_self _ _ _
    simpa only [acted,Prog.run,Function.update_idem] using ih pool.state own rest

def acted (pool : Pool σ β) (name : Nat) : Pool σ β :=
  match pool.threads name with
  | some (.act _ update next) => ⟨update pool.state,Function.update pool.threads name (some (next pool.state))⟩
  | _ => pool

theorem acts_once {resume : β → Option (Prog σ β)} {starts : Nat → Prog σ β → Prop} {pool : Pool σ β} (name : Nat)
    (thread : pool.threads name = some (.act ready update next)) (on : ready pool.state = true) :
    Step resume starts pool (pool.acted name) := by
  have step : Step resume starts pool _ := .acts pool name thread on
  simpa only [acted,thread] using step

def ran (pool : Pool σ β) (name : Nat) (p : Prog σ β) : Pool σ β :=
  ⟨(p.run pool.state).2,Function.update pool.threads name (some (.ret (p.run pool.state).1))⟩

theorem goes_alone (goes : Step resume starts pool ⟨pool.state,Function.update pool.threads name (some p)⟩)
    (ready : p.ready pool.state = true) : Relation.ReflTransGen (Step resume starts) pool (pool.ran name p) := by
  refine .head goes ?_
  let begun : Pool σ β := ⟨pool.state,Function.update pool.threads name (some p)⟩
  have own : begun.threads name = some p := Function.update_self _ _ _
  simpa only [ran,begun,Function.update_idem] using alone name own ready

theorem begins_alone (fresh : pool.threads name = none) (starting : starts name p)
    (ready : p.ready pool.state = true) : Relation.ReflTransGen (Step resume starts) pool (pool.ran name p) :=
  goes_alone name (.begins pool name fresh starting) ready

theorem resumes_alone (thread : pool.threads name = some (.ret value)) (again : resume value = some p)
    (ready : p.ready pool.state = true) : Relation.ReflTransGen (Step resume starts) pool (pool.ran name p) :=
  goes_alone name (.resumes pool name thread again) ready

/-- What each thread relies on and guarantees, by name, and how they fit together. -/
structure Protocol (resume : β → Option (Prog σ β)) (starts : Nat → Prog σ β → Prop) where
  rely : Nat → σ → σ → Prop
  guar : Nat → σ → σ → Prop
  block : Nat → σ → Prop
  post : Nat → β → σ → Prop
  unused : Nat → σ → Prop
  invariant : σ → Prop
  reflexive : ∀ name s, rely name s s
  transitive : ∀ name s t u, rely name s t → rely name t u → rely name s u
  compatible : ∀ name other s t, name ≠ other → guar name s t → rely other s t
  keeps : ∀ name s t, invariant s → guar name s t → invariant t
  untouched : ∀ name s t, unused name s → rely name s t → unused name t
  resumed : ∀ name value p s, post name value s → resume value = some p →
    p.Meets (rely name) (guar name) (block name) (post name) s
  started : ∀ name p s, invariant s → unused name s → starts name p →
    p.Meets (rely name) (guar name) (block name) (post name) s

variable {resume : β → Option (Prog σ β)} {starts : Nat → Prog σ β → Prop}

/-- The invariant holds, every thread meets its part of the protocol and the other names
are still unused. -/
def Follows (protocol : Protocol resume starts) (pool : Pool σ β) : Prop :=
  protocol.invariant pool.state ∧
  (∀ name p, pool.threads name = some p →
    p.Meets (protocol.rely name) (protocol.guar name) (protocol.block name) (protocol.post name) pool.state) ∧
  ∀ name, pool.threads name = none → protocol.unused name pool.state

variable {protocol : Protocol resume starts} {threads : Nat → Option (Prog σ β)} {state : σ} {name : Nat} {p : Prog σ β}

private theorem meets_update
    (own : p.Meets (protocol.rely name) (protocol.guar name) (protocol.block name) (protocol.post name) state)
    (others : ∀ other, other ≠ name → ∀ q, threads other = some q →
      q.Meets (protocol.rely other) (protocol.guar other) (protocol.block other)
        (protocol.post other) state) :
    ∀ other q, Function.update threads name (some p) other = some q →
      q.Meets (protocol.rely other) (protocol.guar other) (protocol.block other) (protocol.post other) state := by
  intro other q found
  by_cases same : other = name
  · subst same
    rw [Function.update_self] at found
    cases found
    exact own
  · rw [Function.update_of_ne same] at found
    exact others other same q found

private theorem unused_update (others : ∀ other, other ≠ name → threads other = none → protocol.unused other state) :
    ∀ other, Function.update threads name (some p) other = none → protocol.unused other state := by
  intro other absent
  by_cases same : other = name
  · subst same
    simp at absent
  · rw [Function.update_of_ne same] at absent
    exact others other same absent

theorem Follows.step {protocol : Protocol resume starts} {pool next : Pool σ β}
    (follows : Follows protocol pool) (step : Step resume starts pool next) : Follows protocol next := by
  obtain ⟨invariant,meets,unused⟩ := follows
  cases step with
  | acts _ name thread on =>
    obtain ⟨guaranteed,rest⟩ := ((meets name _ thread) pool.state (protocol.reflexive name _)).2 on
    have relied := fun other different => protocol.compatible name other _ _ (Ne.symm different) guaranteed
    refine ⟨protocol.keeps name _ _ invariant guaranteed,meets_update rest ?_,unused_update ?_⟩
    · intro other different q found
      exact (meets other q found).after (protocol.transitive other) (relied other different)
    · intro other different absent
      exact protocol.untouched other _ _ (unused other absent) (relied other different)
  | resumes _ name thread again =>
    have returned := meets name _ thread pool.state (protocol.reflexive name _)
    exact ⟨invariant,meets_update (protocol.resumed name _ _ _ returned again) fun other _ => meets other,
      unused_update fun other _ => unused other⟩
  | begins _ name fresh starting =>
    exact ⟨invariant,meets_update (protocol.started name _ _ invariant (unused name fresh) starting)
      fun other _ => meets other,unused_update fun other _ => unused other⟩

theorem Follows.reachable {protocol : Protocol resume starts} {pool later : Pool σ β}
    (follows : Follows protocol pool) (path : Relation.ReflTransGen (Step resume starts) pool later) :
    Follows protocol later := by
  induction path with
  | refl => exact follows
  | tail _ step ih => exact ih.step step

end Pool

/-- Every entry of a history is warranted by those before it. -/
def Warranted {α : Type} (warrant : List α → α → Prop) (history : List α) : Prop :=
  ∀ before entry after, history = before ++ entry :: after → warrant before entry

namespace Warranted
open List
variable {α : Type} {warrant : List α → α → Prop} {history : List α}

theorem nil : Warranted warrant [] := fun before entry after whole => by simp at whole

theorem concat (warranted : Warranted warrant history) (last : warrant history entry) :
    Warranted warrant (history ++ [entry]) := by
  intro before entry' after whole
  rcases eq_nil_or_concat after with rfl | ⟨between,final,rfl⟩
  · obtain ⟨rfl,same⟩ := append_inj' whole rfl
    exact singleton_inj.mp same ▸ last
  · rw [concat_eq_append,← cons_append,← append_assoc] at whole
    exact warranted before entry' between (append_inj' whole rfl).1

theorem append (warranted : Warranted warrant history) (entries : List α)
    (each : ∀ before, ∀ entry ∈ entries, warrant before entry) : Warranted warrant (history ++ entries) := by
  induction entries using List.reverseRecOn with
  | nil => simpa using warranted
  | append_singleton entries entry ih =>
    rw [← append_assoc]
    exact (ih fun before other member => each before other (by simp [member])).concat (each _ entry (by simp))

end Warranted
