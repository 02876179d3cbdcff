import Reldex.Threads

/-! Threads that keep to guarantees. Each name guarantees what its actions do; a thread may
rely on nothing else, so an assertion holds between its actions as long as no other
guarantee can break it. -/
namespace Prog
variable {σ τ α β : Type} {guar : Nat → σ → σ → Prop} {name : Nat} {block : σ → Prop}

def Rely (guar : Nat → σ → σ → Prop) (name : Nat) : σ → σ → Prop :=
  Relation.ReflTransGen fun s t => ∃ other, other ≠ name ∧ guar other s t

def Stable (guar : Nat → σ → σ → Prop) (name : Nat) (fact : σ → Prop) : Prop :=
  ∀ other s t, other ≠ name → guar other s t → fact s → fact t

theorem Stable.rely {fact : σ → Prop} (stable : Stable guar name fact) (path : Rely guar name s t) (holds : fact s) :
    fact t := by
  induction path with
  | refl => exact holds
  | tail _ step ih =>
    obtain ⟨other,different,moved⟩ := step
    exact stable other _ _ different moved ih

theorem Stable.and {fact other : σ → Prop} (first : Stable guar name fact) (second : Stable guar name other) :
    Stable guar name fun s => fact s ∧ other s :=
  fun named s t different moved holds =>
    ⟨first named s t different moved holds.1,second named s t different moved holds.2⟩

theorem Stable.given {known : Prop} {fact : σ → Prop} (stable : Stable guar name fact) :
    Stable guar name fun s => known ∧ fact s :=
  fun named s t different moved holds => ⟨holds.1,stable named s t different moved holds.2⟩

/-- From a state with `pre`, whatever the others do, each action is guaranteed and the
program returns with `post`. -/
def Spec (guar : Nat → σ → σ → Prop) (name : Nat) (block : σ → Prop) (pre : σ → Prop) (p : Prog σ α)
    (post : α → σ → Prop) : Prop :=
  ∀ s, pre s → p.Meets (Rely guar name) (guar name) block post s

variable {pre : σ → Prop} {p : Prog σ α} {post : α → σ → Prop}

theorem Spec.weaken {strong : α → σ → Prop} (spec : Spec guar name block pre p strong)
    (weaker : ∀ value s, strong value s → post value s) : Spec guar name block pre p post :=
  fun s holds => (spec s holds).mono weaker

theorem Spec.blocks {strong : σ → Prop} (spec : Spec guar name strong pre p post)
    (weaker : ∀ s, strong s → block s) : Spec guar name block pre p post := by
  intro s holds
  have meets := spec s holds
  clear spec holds
  induction p generalizing s with
  | ret value => exact meets
  | act ready update next ih =>
    intro t path
    obtain ⟨waits,moves⟩ := meets t path
    exact ⟨fun off => weaker t (waits off),fun on => ⟨(moves on).1,ih t _ (moves on).2⟩⟩

theorem Spec.from {weak : σ → Prop} (spec : Spec guar name block weak p post) (stronger : ∀ s, pre s → weak s) :
    Spec guar name block pre p post :=
  fun s holds => spec s (stronger s holds)

theorem Spec.given {known : Prop} (spec : known → Spec guar name block pre p post) :
    Spec guar name block (fun s => known ∧ pre s) p post :=
  fun s holds => spec holds.1 s holds.2

theorem Spec.bind {mid : α → σ → Prop} {rest : α → Prog σ β} {post : β → σ → Prop}
    (first : Spec guar name block pre p mid) (later : ∀ value, Spec guar name block (mid value) (rest value) post) :
    Spec guar name block pre (p >>= rest) post :=
  fun s holds => .bind (fun _ => .refl) ((first s holds).mono fun value t reached => later value t reached)

theorem Spec.pure {value : α} (stable : Stable guar name pre) (done : ∀ s, pre s → post value s) :
    Spec guar name block pre (Pure.pure value : Prog σ α) post :=
  fun _ holds t path => done t (stable.rely path holds)

theorem Spec.await {ready : σ → Bool} {change : σ → α × σ} (stable : Stable guar name pre)
    (kept : ∀ value, Stable guar name (post value)) (waits : ∀ s, pre s → ready s = false → block s)
    (step : ∀ s, pre s → ready s = true → guar name s (change s).2 ∧ post (change s).1 (change s).2) :
    Spec guar name block pre (Prog.await ready change) post := by
  refine fun s holds => .await (fun t path off => waits t (stable.rely path holds) off) fun t path on => ?_
  obtain ⟨guaranteed,reached⟩ := step t (stable.rely path holds) on
  exact ⟨guaranteed,fun u later => (kept _).rely later reached⟩

theorem Spec.modifyGet {change : σ → α × σ} (stable : Stable guar name pre)
    (kept : ∀ value, Stable guar name (post value))
    (step : ∀ s, pre s → guar name s (change s).2 ∧ post (change s).1 (change s).2) :
    Spec guar name block pre (Prog.modifyGet change) post :=
  .await stable kept nofun fun s holds _ => step s holds

theorem Spec.modify {change : σ → σ} {post : Unit → σ → Prop} (stable : Stable guar name pre)
    (kept : Stable guar name (post ())) (step : ∀ s, pre s → guar name s (change s) ∧ post () (change s)) :
    Spec guar name block pre (Prog.modify change) post :=
  (modifyGet stable (fun _ => kept) step : Spec guar name block pre (Prog.modifyGet fun s => ((),change s)) post)

theorem Spec.gets {read : σ → α} (stable : Stable guar name pre) (kept : ∀ value, Stable guar name (post value))
    (step : ∀ s, pre s → guar name s s ∧ post (read s) s) : Spec guar name block pre (Prog.gets read) post :=
  (modifyGet stable kept step : Spec guar name block pre (Prog.modifyGet fun s => (read s,s)) post)

/-- A fact that neither the others nor the program's own actions break goes along. -/
theorem Spec.frame {kept : σ → Prop} (spec : Spec guar name block pre p post) (stable : Stable guar name kept)
    (acts : p.Acts (fun s t => kept s → kept t) fun _ => True) :
    Spec guar name block (fun s => pre s ∧ kept s) p fun value s => post value s ∧ kept s := by
  rintro s ⟨holds,kept⟩
  have meets := spec s holds
  clear spec holds
  induction p generalizing s with
  | ret value => exact fun t path => ⟨meets t path,stable.rely path kept⟩
  | act ready update next ih =>
    intro t path
    obtain ⟨waits,moves⟩ := meets t path
    refine ⟨waits,fun on => ⟨(moves on).1,?_⟩⟩
    obtain ⟨keeps,rest⟩ := acts t on
    exact ih t rest _ (keeps (stable.rely path kept)) (moves on).2

end Prog

namespace Pool
variable {σ β : Type} {resume : β → Option (Prog σ β)} {starts : Nat → Prog σ β → Prop}

/-- The protocol in which each name relies on what the others guarantee. -/
def Protocol.ofGuarantees (guar : Nat → σ → σ → Prop) (block : Nat → σ → Prop) (post : Nat → β → σ → Prop)
    (unused : Nat → σ → Prop) (invariant : σ → Prop)
    (keeps : ∀ name s t, invariant s → guar name s t → invariant t)
    (untouched : ∀ name, Prog.Stable guar name (unused name))
    (resumed : ∀ name value p, resume value = some p → Prog.Spec guar name (block name) (post name value) p (post name))
    (started : ∀ name p, starts name p →
      Prog.Spec guar name (block name) (fun s => invariant s ∧ unused name s) p (post name)) :
    Protocol resume starts where
  rely := Prog.Rely guar
  guar := guar
  block := block
  post := post
  unused := unused
  invariant := invariant
  reflexive _ _ := .refl
  transitive _ _ _ _ := .trans
  compatible name _ _ _ different guaranteed := .single ⟨name,different,guaranteed⟩
  keeps := keeps
  untouched name _ _ holds path := (untouched name).rely path holds
  resumed name value p s holds again := resumed name value p again s holds
  started name p s holds fresh starting := started name p starting s ⟨holds,fresh⟩

theorem Follows.moved {protocol : Protocol resume starts} {pool next : Pool σ β} (follows : Follows protocol pool)
    (step : Step resume starts pool next) : next.state = pool.state ∨ ∃ name, protocol.guar name pool.state next.state := by
  cases step with
  | acts _ name thread on =>
    exact .inr ⟨name,((follows.2.1 name _ thread pool.state (protocol.reflexive name _)).2 on).1⟩
  | resumes => exact .inl rfl
  | begins => exact .inl rfl

end Pool
