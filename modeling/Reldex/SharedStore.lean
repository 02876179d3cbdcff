import Reldex.Guarantees
import Reldex.Transactions

/-! A store that several connections use. A reader sees what was last committed. An immediate
transaction waits for the write lock, works on a view of its own and publishes it when it
commits; until then, and when it is rolled back, nobody else sees anything of it. -/

/-- What was committed last, and the connection that holds the write lock. -/
structure SharedStore (σ : Type) where
  committed : σ
  writer : Option Nat

/-- What the engine fails of one connection, for reasons of its own. -/
structure Outages (ε : Type) where
  first : Option ε
  start : Option ε
  body : List (Option ε)
  commit : Option ε

def Outages.Reports (outages : Outages ε) (failure : ε) : Prop :=
  outages.first = some failure ∨ outages.start = some failure ∨ some failure ∈ outages.body ∨
    outages.commit = some failure

namespace SharedStore
variable {σ ε α : Type}

def publish (next : σ) (_ : SharedStore σ) : SharedStore σ := ⟨next,none⟩
def release (s : SharedStore σ) : SharedStore σ := { s with writer := none }

/-- `BEGIN IMMEDIATE`, the body, `COMMIT`, by this connection. -/
def immediate (me : Nat) (body : Transaction σ ε α) (outages : Outages ε) : Prog (SharedStore σ) (Except ε α) :=
  match outages.start with
  | some failure => pure (.error failure)
  | none => do
    let view ← Prog.await (fun s => s.writer.isNone) fun s => (s.committed,{ s with writer := some me })
    match body (view,outages.body),outages.commit with
    | .error failure,_ => do
      Prog.modify release
      return .error failure
    | .ok _,some failure => do
      Prog.modify release
      return .error failure
    | .ok (value,next,_),none => do
      Prog.modify (publish next)
      return .ok value

/-- What a connection does to the store, when what it commits follows from what it found. -/
inductive Moves (commits : σ → σ → Prop) (me : Nat) : SharedStore σ → SharedStore σ → Prop where
  | reads (s : SharedStore σ) : Moves commits me s s
  | locks (view : σ) : Moves commits me ⟨view,none⟩ ⟨view,some me⟩
  | releases (view : σ) : Moves commits me ⟨view,some me⟩ ⟨view,none⟩
  | publishes {view next : σ} (committed : commits view next) : Moves commits me ⟨view,some me⟩ ⟨next,none⟩

variable {commits : σ → σ → Prop} {name : Nat} {block : SharedStore σ → Prop}

section
variable {fact : σ → Prop} (kept : ∀ view next, commits view next → fact view → fact next)
include kept

theorem Moves.keeps (moved : Moves commits name s t) (holds : fact s.committed) : fact t.committed := by
  cases moved with
  | reads => exact holds
  | locks => exact holds
  | releases => exact holds
  | publishes committed => exact kept _ _ committed holds

theorem stable_committed : Prog.Stable (Moves commits) name fun s => fact s.committed :=
  fun _ _ _ _ moved holds => moved.keeps kept holds

end

theorem stable_locked (view : σ) : Prog.Stable (Moves commits) name fun s => s = ⟨view,some name⟩ := by
  intro other s t different moved locked
  subst locked
  cases moved with
  | reads => rfl
  | releases => exact absurd rfl different
  | publishes => exact absurd rfl different

theorem read_spec {read : σ → β} {pre : σ → Prop}
    (kept : ∀ view next, commits view next → pre view → pre next) {post : β → σ → Prop}
    (known : ∀ value view next, commits view next → post value view → post value next)
    (holds : ∀ view, pre view → post (read view) view) :
    Prog.Spec (Moves commits) name block (fun s => pre s.committed) (Prog.gets fun s => read s.committed)
      fun value s => post value s.committed :=
  .gets (stable_committed kept) (fun value => stable_committed (known value)) fun s before => ⟨.reads s,holds _ before⟩

private theorem last_spec {view : σ} {post : Except ε α → σ → Prop} {result : Except ε α}
    {change : SharedStore σ → SharedStore σ}
    (known : ∀ result view next, commits view next → post result view → post result next)
    (moves : Moves commits name ⟨view,some name⟩ (change ⟨view,some name⟩))
    (reached : post result (change ⟨view,some name⟩).committed) :
    Prog.Spec (Moves commits) name block (fun s => s = ⟨view,some name⟩)
      (do Prog.modify change; return result) fun result s => post result s.committed := by
  have changes : Prog.Spec (Moves commits) name block (fun s => s = ⟨view,some name⟩) (Prog.modify change)
      fun _ s => post result s.committed := by
    refine .modify (stable_locked view) (stable_committed (known _)) fun s locked => ?_
    subst locked
    exact ⟨moves,reached⟩
  exact changes.bind fun _ => .pure (stable_committed (known _)) fun _ holds => holds

/-- An immediate transaction commits what its body makes of the last committed state, or fails. -/
theorem immediate_spec {body : Transaction σ ε α} {outages : Outages ε} {pre : σ → Prop} {post : Except ε α → σ → Prop}
    (kept : ∀ view next, commits view next → pre view → pre next)
    (known : ∀ result view next, commits view next → post result view → post result next)
    (reports : ∀ failure view, outages.Reports failure → pre view → post (.error failure) view)
    (fails : ∀ failure view, pre view → body (view,outages.body) = .error failure → post (.error failure) view)
    (ends : ∀ value view next rest, pre view → body (view,outages.body) = .ok (value,next,rest) →
      commits view next ∧ post (.ok value) next)
    (waits : ∀ s : SharedStore σ, s.writer.isNone = false → block s) :
    Prog.Spec (Moves commits) name block (fun s => pre s.committed) (immediate name body outages)
      fun result s => post result s.committed := by
  unfold immediate
  split
  next failure failed =>
    exact .pure (stable_committed kept) fun s before => reports failure _ (.inr (.inl failed)) before
  next =>
    have locks : Prog.Spec (Moves commits) name block (fun s => pre s.committed)
        (Prog.await (fun s => s.writer.isNone) fun s => (s.committed,{ s with writer := some name }))
        fun view s => pre view ∧ s = ⟨view,some name⟩ := by
      refine .await (stable_committed kept) (fun view => (stable_locked view).given) (fun s _ => waits s) ?_
      rintro ⟨view,writer⟩ before free
      obtain rfl := Option.isNone_iff_eq_none.mp free
      exact ⟨.locks view,before,rfl⟩
    refine locks.bind fun view => .given fun before => ?_
    split
    next failure failed => exact last_spec known (.releases view) (fails failure view before failed)
    next failure _ failed =>
      exact last_spec known (.releases view) (reports failure view (.inr (.inr (.inr failed))) before)
    next value next rest ended _ =>
      obtain ⟨committed,reached⟩ := ends value view next rest before ended
      exact last_spec known (.publishes committed) reached

end SharedStore
