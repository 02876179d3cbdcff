import Mathlib.Logic.Basic

/-! Transactions of a store. A body is a sequence of statements; the engine may fail any of
them for reasons of its own, and a body that fails leaves the store as it was. A `Triple` says what
holds of the store once a body went through, and what one that fails reports. -/

/-- The statements of one transaction, run with the failures the engine is going to report. -/
abbrev Transaction (σ ε : Type) := StateT (σ × List (Option ε)) (Except ε)

namespace Transaction
variable {σ ε α β : Type}

/-- One statement, unless the engine fails it. -/
def statement (change : σ → Except ε (α × σ)) : Transaction σ ε α := fun (s,faults) =>
  match faults with
  | some failure :: _ => .error failure
  | none :: rest => (change s).map fun (value,s') => (value,s',rest)
  | [] => (change s).map fun (value,s') => (value,s',[])

def query (read : σ → α) : Transaction σ ε α := statement fun s => .ok (read s,s)
def execute (change : σ → σ) : Transaction σ ε Unit := statement fun s => .ok ((),change s)

/-- `BEGIN IMMEDIATE`, the body, `COMMIT`; a failure anywhere rolls back. -/
def immediate (body : Transaction σ ε α) (faults : List (Option ε)) (s : σ) : Except ε α × σ :=
  let whole : Transaction σ ε α := do
    execute id
    let value ← body
    execute id
    return value
  match whole (s,faults) with
  | .ok (value,s',_) => (.ok value,s')
  | .error failure => (.error failure,s)

/-- From a store with `pre`, a body that goes through ends with `post`; one that fails reports a failure
of the engine or a `cause`. -/
structure Triple (pre : σ → Prop) (body : Transaction σ ε α) (post : α → σ → Prop) (cause : ε → Prop) : Prop where
  ends : ∀ s faults value s' rest, pre s → body (s,faults) = .ok (value,s',rest) → post value s' ∧ rest ⊆ faults
  fails : ∀ s faults reported, pre s → body (s,faults) = .error reported → some reported ∈ faults ∨ cause reported

/-- What holds of the store, whatever a body that fails reports. -/
abbrev Ensures (pre : σ → Prop) (body : Transaction σ ε α) (post : α → σ → Prop) : Prop :=
  Triple pre body post fun _ => True

namespace Triple
variable {pre : σ → Prop} {m : α → σ → Prop} {cause : ε → Prop}

theorem pure (holds : ∀ s, pre s → post value s) : Triple pre (Pure.pure value : Transaction σ ε α) post cause where
  ends s faults value' s' rest before ran := by
    cases ran
    exact ⟨holds s before,List.Subset.refl _⟩
  fails _ _ _ _ ran := by cases ran

theorem throw {failure : ε} (own : cause failure := by trivial) : Triple pre (MonadExcept.throw failure : Transaction σ ε α) post cause where
  ends _ _ _ _ _ _ ran := by cases ran
  fails _ _ _ _ ran := by
    cases ran
    exact .inr own

theorem bind (first : Triple pre body m cause) (later : ∀ value, Triple (m value) (next value) post cause) :
    Triple pre (body >>= next) post cause where
  ends s faults value s' rest before ran := by
    change (body (s,faults) >>= fun r => next r.1 r.2) = _ at ran
    cases ended : body (s,faults) with
    | error failure =>
      rw [ended] at ran
      cases ran
    | ok result =>
      obtain ⟨mine,between,left⟩ := result
      rw [ended] at ran
      obtain ⟨reached,spent⟩ := first.ends s faults mine between left before ended
      exact ((later mine).ends between left value s' rest reached ran).imp_right fun inside => List.Subset.trans inside spent
  fails s faults reported before ran := by
    change (body (s,faults) >>= fun r => next r.1 r.2) = _ at ran
    cases ended : body (s,faults) with
    | error failure =>
      rw [ended] at ran
      cases ran
      exact first.fails s faults reported before ended
    | ok result =>
      obtain ⟨mine,between,left⟩ := result
      rw [ended] at ran
      obtain ⟨reached,spent⟩ := first.ends s faults mine between left before ended
      exact ((later mine).fails between left reported reached ran).imp_left (spent ·)

theorem statement {change : σ → Except ε (α × σ)}
    (holds : ∀ s value s', pre s → change s = .ok (value,s') → post value s')
    (own : ∀ s reported, pre s → change s = .error reported → cause reported := by exact fun _ _ _ _ => trivial) :
    Triple pre (Transaction.statement change) post cause where
  ends s faults value s' rest before ran := by
    rcases faults with _ | ⟨_ | failure,left⟩
    all_goals cases changed : change s <;> simp [Transaction.statement,changed,Except.map] at ran
    all_goals
      obtain ⟨rfl,rfl,rfl⟩ := ran
      exact ⟨holds s _ _ before changed,by simp⟩
  fails s faults reported before ran := by
    rcases faults with _ | ⟨_ | failure,left⟩
    all_goals cases changed : change s <;> simp [Transaction.statement,changed,Except.map] at ran
    all_goals subst ran
    all_goals first | exact .inr (own s _ before changed) | exact .inl (List.mem_cons_self ..)

theorem mapped {read : σ → Except ε β} {wrap : σ → β → α × σ}
    (holds : ∀ s b, pre s → read s = .ok b → post (wrap s b).1 (wrap s b).2)
    (own : ∀ s reported, pre s → read s = .error reported → cause reported) :
    Triple pre (Transaction.statement fun s => (read s).map (wrap s)) post cause := by
  refine .statement (fun s value s' before ran => ?_) fun s reported before ran => ?_
  all_goals cases found : read s <;> rw [found] at ran
  · cases ran
  · have same := Except.ok.inj ran
    simpa only [same] using holds s _ before found
  · cases ran
    exact own s _ before found
  · cases ran

theorem query {read : σ → α} :
    Triple pre (Transaction.query read : Transaction σ ε α) (fun value s => pre s ∧ value = read s) cause := by
  refine statement (fun s value s' before ran => ?_) nofun
  cases ran
  exact ⟨before,rfl⟩

theorem execute {change : σ → σ} (holds : ∀ s, pre s → post (change s)) :
    Triple pre (Transaction.execute change : Transaction σ ε Unit) (fun _ => post) cause := by
  refine statement (fun s value s' before ran => ?_) nofun
  cases ran
  exact holds s before

theorem weaken (triple : Triple pre body post cause) (stronger : ∀ s, pre' s → pre s)
    (weaker : ∀ value s, post value s → post' value s) (wider : ∀ reported, cause reported → cause' reported) :
    Triple pre' body post' cause' where
  ends s faults value s' rest before ran :=
    (triple.ends s faults value s' rest (stronger s before) ran).imp_left (weaker value s')
  fails s faults reported before ran :=
    (triple.fails s faults reported (stronger s before) ran).imp_right (wider reported)

theorem each (triple : ∀ s, pre s → Triple (· = s) body post cause) : Triple pre body post cause where
  ends s faults value s' rest before := (triple s before).ends s faults value s' rest rfl
  fails s faults reported before := (triple s before).fails s faults reported rfl

theorem given (triple : known → Triple pre body post cause) : Triple (fun s => known ∧ pre s) body post cause :=
  each fun _ held => (triple held.1).weaken (fun _ same => same ▸ held.2) (fun _ _ => id) fun _ => id

theorem chosen {before : τ → σ → Prop} (triple : ∀ choice, Triple (before choice) body post cause) :
    Triple (fun s => ∃ choice, before choice s) body post cause :=
  each fun _ ⟨choice,held⟩ => (triple choice).weaken (fun _ same => same ▸ held) (fun _ _ => id) fun _ => id

end Triple

/-- A transaction that went through did what its body ensures; one that failed changed nothing. -/
theorem immediate_cases {post : α → σ → Prop} (ensures : Ensures pre body post)
    (faults : List (Option ε)) (before : pre s) :
    (∃ failure, immediate body faults s = (.error failure,s)) ∨
      ∃ value s', immediate body faults s = (.ok value,s') ∧ post value s' := by
  let whole : Transaction σ ε α := do
    execute id
    let value ← body
    execute id
    return value
  have all : Ensures pre whole post :=
    .bind (.execute fun _ held => held) fun _ => .bind ensures fun value =>
      .bind (.execute fun _ held => held) fun _ => .pure fun _ held => held
  have unfolded : immediate body faults s = match whole (s,faults) with
      | .ok (value,s',_) => (.ok value,s')
      | .error failure => (.error failure,s) := rfl
  cases ended : whole (s,faults) with
  | error failure => exact .inl ⟨failure,by rw [unfolded,ended]⟩
  | ok result =>
    obtain ⟨value,s',rest⟩ := result
    exact .inr ⟨value,s',by rw [unfolded,ended],(all.ends s faults value s' rest before ended).1⟩

end Transaction
