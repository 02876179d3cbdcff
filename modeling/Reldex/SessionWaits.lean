import Reldex.SessionSteps

/-! When the controller of a session is busy and what it waits for. -/
namespace Reldex.Ui
open List Relation Bool Nat

section
variable {env : Env} {s t : System} {kind : EventKind} {about : Nat}

/-- Automatic fetching is on, the fetches in flight are those unanswered, and a state that a
reply ends has that reply to come. -/
structure Steady (s : System) : Prop extends Books s where
  automatic : s.autoFetch = true
  flight : s.terminated = false → s.fetchesInFlight = s.hub.pending.countP fun p => p.kind = .fetched
  final : s.terminated = true → s.hub.retired = true ∧ (s.state = .closed ∨ s.state = .failed)
  awaited : ∀ kind, s.state.awaits = some kind → ∃ p ∈ s.hub.pending, p.kind = kind

/-- While rows are fetched more come, unless the result was closed, exhausted or is full. -/
structure Waiting (s : System) : Prop extends Steady s where
  fetching : s.state = .fetching →
    s.hasResult = false ∨ s.model.rowLimitReached = true ∨ s.exhausted = true ∨ 0 < s.fetchesInFlight

theorem Steady.waiting (steady : Steady s) (idle : s.state ≠ .fetching) : Waiting s :=
  ⟨steady,fun fetching => absurd fetching idle⟩

namespace Steady
variable (steady : Steady s)
include steady

theorem alike (same : Alike s t) : Steady t := by
  rw [same.2]
  exact { steady with numbered := fun p member => (steady.numbered p member).trans_le same.1 }

theorem failed : Steady { s with state := .failed } :=
  { steady with
    final := fun gone => ⟨(steady.final gone).1,.inr rfl⟩
    awaited := fun kind awaits => by cases awaits }

theorem asked (alive : s.hub.retired = false) : Steady s.asked where
  toBooks := { steady.toBooks.accepted steady.shown with }
  automatic := steady.automatic
  flight lasts := by
    have before := steady.flight lasts
    simp [System.asked,System.accepted,before]
  final gone := by simp [(steady.final gone).1] at alive
  awaited kind awaits := by
    obtain ⟨p,member,same⟩ := steady.awaited kind awaits
    exact ⟨p,mem_append_left _ member,same⟩

theorem accepted (alive : s.hub.retired = false) (known : about < s.hub.nextResultId)
    (other : kind ≠ .fetched) (entered : state = s.state ∨ state.awaits = some kind) :
    Steady { s.accepted kind about with state := state } where
  toBooks := { steady.toBooks.accepted known with }
  automatic := steady.automatic
  flight lasts := by
    have before := steady.flight lasts
    simp [System.accepted,before,other]
  final gone := by simp [(steady.final gone).1] at alive
  awaited awaited awaits := by
    obtain rfl | ended := entered
    · obtain ⟨p,member,same⟩ := steady.awaited awaited awaits
      exact ⟨p,mem_append_left _ member,same⟩
    · obtain rfl := Option.some.inj (ended.symm.trans awaits)
      exact ⟨_,mem_append_right _ (mem_singleton_self _),rfl⟩

theorem submitFetches : Waiting (s.submitFetches env) := by
  refine ⟨System.submitFetches_keeps (fun _ => Steady.asked) (fun _ _ steady => steady.failed.alike ⟨le_succ _,rfl⟩) steady,?_⟩
  unfold System.submitFetches
  split
  · rename_i blocked
    intro _
    simp only [or_eq_true,not_eq_true'] at blocked
    tauto
  · intro fetching
    have room := s.maxFetchesInFlight.property
    obtain failed | filled := System.fillSlots_fills env steady.automatic (s.maxFetchesInFlight - s.fetchesInFlight)
    · simp [failed] at fetching
    · exact .inr (.inr (.inr (by omega)))

theorem clearGrid : Steady s.clearGrid where
  toBooks := { steady.toBooks with
    shown := zero_lt_of_lt steady.shown
    has := by simp [System.clearGrid] }
  automatic := steady.automatic
  flight := steady.flight
  final := steady.final
  awaited := steady.awaited

theorem replaces (replaces : Replaces env s t) : Steady t := by
  cases replaces with
  | kept _ same => exact steady.alike same
  | closed alive same => exact (steady.accepted alive steady.shown (by decide) (.inl rfl)).alike same

end Steady

namespace Waiting
variable (waiting : Waiting s)
include waiting

theorem alike (same : Alike s t) : Waiting t := by
  refine ⟨waiting.toSteady.alike same,?_⟩
  rw [same.2]
  exact waiting.fetching

theorem executes (executes : Executes env s t) : Waiting t := by
  cases executes with
  | unopened => exact waiting
  | refused replaces same =>
    exact ((waiting.toSteady.replaces replaces).clearGrid.failed.waiting (by simp)).alike same
  | started replaces alive =>
    have cleared := (waiting.toSteady.replaces replaces).clearGrid
    have entered := cleared.accepted alive (zero_lt_of_lt cleared.shown) (by decide)
      (.inr (show ControllerState.executing.awaits = some .executed from rfl))
    exact Steady.waiting { entered with } (by simp [System.started])

end Waiting

structure Taken (kind : EventKind) (s : System) : Prop extends Books s where
  automatic : s.autoFetch = true
  flight : s.terminated = false →
    s.fetchesInFlight = s.hub.pending.countP (fun p => p.kind = .fetched) + if kind = .fetched then 1 else 0
  final : s.terminated = true → s.hub.retired = true ∧ (s.state = .closed ∨ s.state = .failed)
  awaited : ∀ other, s.state.awaits = some other → other = kind ∨ ∃ p ∈ s.hub.pending, p.kind = other
  fetching : s.state = .fetching →
    s.hasResult = false ∨ s.model.rowLimitReached = true ∨ s.exhausted = true ∨ 0 < s.fetchesInFlight

theorem Waiting.taken (waiting : Waiting s) (queue : s.hub.pending = before ++ p :: rest) (event : HubEvent)
    (error : Option DbError) : Taken p.kind (s.took (before ++ rest) p event error) where
  toBooks := waiting.toBooks.replied queue (Nat.le_add_right ..) error
  automatic := waiting.automatic
  flight lives := by
    have counted := waiting.flight lives
    rw [queue,countP_append,countP_cons] at counted
    simp only [System.took,System.settle,countP_append,counted,decide_eq_true_eq]
    omega
  final := waiting.final
  awaited kind awaits := by
    obtain ⟨q,member,same⟩ := waiting.awaited kind awaits
    rw [queue] at member
    obtain old | rfl | new := mem_append.mp member |>.imp_right mem_cons.mp
    · exact .inr ⟨q,mem_append_left _ old,same⟩
    · exact .inl same.symm
    · exact .inr ⟨q,mem_append_right _ new,same⟩
  fetching := waiting.fetching

namespace Taken

theorem gone (taken : Taken kind s) (gone : s.terminated = true) : Waiting s := by
  have still : s.state.awaits = none ∧ s.state ≠ .fetching := by
    obtain closed | failed := (taken.final gone).2
    · simp [closed,ControllerState.awaits]
    · simp [failed,ControllerState.awaits]
  refine ⟨⟨taken.toBooks,taken.automatic,fun lives => ?_,taken.final,fun other awaits => ?_⟩,
    fun fetching => absurd fetching still.2⟩
  · exact absurd (lives.symm.trans gone) false_ne_true
  · simp [still.1] at awaits

theorem moved (taken : Taken kind s) (lives : s.terminated = false) (other : kind ≠ .fetched)
    (plain : state.awaits = none) : Steady { s with state := state } where
  toBooks := { taken.toBooks with }
  automatic := taken.automatic
  flight _ := by simpa [other] using taken.flight lives
  final gone := absurd (lives.symm.trans gone) false_ne_true
  awaited other awaits := by simp [plain] at awaits

theorem landed (taken : Taken .fetched s) (lives : s.terminated = false) :
    Steady { s with fetchesInFlight := s.fetchesInFlight - 1 } where
  toBooks := { taken.toBooks with }
  automatic := taken.automatic
  flight _ := by simp [taken.flight lives]
  final := taken.final
  awaited other awaits := by
    refine (taken.awaited other awaits).resolve_left ?_
    rintro rfl
    cases state : s.state <;> simp [state,ControllerState.awaits] at awaits

theorem rested (taken : Taken kind s) (lives : s.terminated = false) (other : kind ≠ .fetched) (rests : state.rests = true) :
    Waiting { s with state := state } :=
  (taken.moved lives other (state.rests_waits rests).1).waiting (state.rests_waits rests).2

theorem reacts (taken : Taken p.kind s) (positive : 0 < n) (reacts : Reacts env p n s event t) : Waiting t := by
  cases reacts with
  | late gone same => exact (taken.gone gone).alike same
  | lateStatement gone _ => exact { taken.gone gone with }
  | moved lives kind rests same =>
    exact (taken.rested lives (by rcases kind with kind | kind <;> simp [kind]) rests).alike same
  | opened lives kind same _ executes => exact ((taken.rested lives (by simp [kind]) rfl).alike same).executes executes
  | answered lives kind _ rests same =>
    refine Waiting.alike ?_ same
    exact { taken.rested lives (by simp [kind]) rests with }
  | shown lives kind known =>
    have fetching := taken.moved lives (by simp [kind]) (show ControllerState.fetching.awaits = none from rfl)
    exact Steady.submitFetches { fetching with shown := known, has := by simp [System.showResult,positive.ne'] }
  | released lives kind =>
    refine ⟨⟨taken.toBooks,taken.automatic,fun lives => by simpa [kind] using taken.flight lives,taken.final,
      fun other awaits => (taken.awaited other awaits).resolve_left ?_⟩,taken.fetching⟩
    rintro rfl
    cases state : s.state <;> simp [state,kind,ControllerState.awaits] at awaits
  | stale lives kind _ => exact (landed (kind ▸ taken) lives).submitFetches
  | unfetched lives kind => exact (landed (kind ▸ taken) lives).failed.waiting (by simp)
  | complete lives own _ _ =>
    have landed := landed (own.1 ▸ taken) lives
    exact Steady.waiting { landed with
      final := fun gone => absurd (lives.symm.trans gone) false_ne_true
      awaited := fun other awaits => by cases awaits } (by simp)
  | landed lives own _ _ => exact Steady.submitFetches { landed (own.1 ▸ taken) lives with }

end Taken

theorem Waiting.does (waiting : Waiting s) (automatic : move ≠ .call (.setAutoFetch false)) (does : Does env s move t) :
    Waiting t := by
  cases does with
  | nothing same | hears _ same => exact waiting.alike same
  | fails same => exact (waiting.toSteady.failed.waiting (by simp)).alike same
  | submits alive entered other same =>
    have accepted := waiting.toSteady.accepted alive (zero_lt_of_lt waiting.shown)
      (by rcases other with rfl | rfl <;> simp) (.inr entered)
    refine (accepted.waiting ?_).alike same
    rintro rfl
    cases entered
  | executes executes => exact waiting.executes executes
  | closes alive shown =>
    have closed := waiting.toSteady.accepted alive waiting.shown (show EventKind.resultClosed ≠ .fetched by decide) (.inl rfl)
    exact ⟨{ closed with shown := zero_lt_of_lt waiting.shown, has := by simp [System.closed] },fun _ => .inl rfl⟩
  | tunes => exact { waiting with }
  | switches on => exact { waiting with automatic := by cases on <;> simp at automatic ⊢ }
  | fetches asked => exact Steady.submitFetches { waiting.toSteady with }
  | ends => exact { waiting with }
  | gone _ _ final same =>
    refine Waiting.alike (Steady.waiting ?_ ?_) same
    · exact { waiting.toSteady with
        flight := by simp
        final := fun _ => ⟨rfl,final.symm⟩
        awaited := fun kind awaits => by obtain rfl | rfl := final <;> cases awaits }
    · obtain rfl | rfl := final <;> simp
  | reacts error queue _ _ _ reacts =>
    exact (waiting.taken queue _ error).reacts (zero_lt_of_lt waiting.shown) reacts

end

section
variable {env : Env} {s t : System} {move : Move}

/-- Behind a fetch of the shown result there are no statements and no fetches of others; once it
is exhausted there are none at all. -/
structure Lined (s : System) : Prop where
  behind : s.hasResult = true → s.hub.pending.Pairwise fun p q =>
    p.Of s.resultId → (q.kind = .executed ∨ q.kind = .fetched) → q.Of s.resultId
  unexecuted : s.exhausted = true → ∀ p ∈ s.hub.pending, p.kind ≠ .executed
  current : s.exhausted = true → s.hasResult = true → ∀ p ∈ s.hub.pending, p.kind = .fetched → p.result = s.resultId

namespace Lined

theorem empty (unshown : s.hasResult = false) (unexhausted : s.exhausted = false) : Lined s :=
  ⟨fun has => absurd (unshown.symm.trans has) false_ne_true,
    fun exhausted => absurd (unexhausted.symm.trans exhausted) false_ne_true,
    fun exhausted => absurd (unexhausted.symm.trans exhausted) false_ne_true⟩

theorem appended (lined : Lined s) (same : s.hub.pending ++ [p] = pending)
    (last : p.Of s.resultId ∨ p.kind ≠ .executed ∧ p.kind ≠ .fetched) (next : System)
    (queue : next.hub.pending = pending) (result : next.resultId = s.resultId) (has : next.hasResult = s.hasResult)
    (exhausted : next.exhausted = s.exhausted) : Lined next := by
  subst same
  refine ⟨fun shown => ?_,fun empty q member => ?_,fun empty shown q member fetched => ?_⟩
  · rw [queue,result]
    refine pairwise_append.mpr ⟨lined.behind (has.symm.trans shown),pairwise_singleton _ _,?_⟩
    intro q _ r single _ other
    obtain rfl := mem_singleton.mp single
    exact last.resolve_right fun neither => other.elim neither.1 neither.2
  · rw [queue] at member
    obtain old | single := mem_append.mp member
    · exact lined.unexecuted (exhausted.symm.trans empty) q old
    · obtain rfl := mem_singleton.mp single
      obtain ⟨fetched,_⟩ | ⟨unexecuted,_⟩ := last
      · simp [fetched]
      · exact unexecuted
  · rw [queue] at member
    rw [result]
    obtain old | single := mem_append.mp member
    · exact lined.current (exhausted.symm.trans empty) (has.symm.trans shown) q old fetched
    · obtain rfl := mem_singleton.mp single
      obtain ⟨_,same⟩ | ⟨_,unfetched⟩ := last
      · exact same
      · exact absurd fetched unfetched

theorem alike (lined : Lined s) (same : Alike s t) : Lined t := by
  rw [same.2]
  exact { lined with }

theorem asked (lined : Lined s) : Lined s.asked := lined.appended rfl (.inl ⟨rfl,rfl⟩) _ rfl rfl rfl rfl

theorem submitFetches (lined : Lined s) : Lined (s.submitFetches env) :=
  System.submitFetches_keeps (fun _ lined _ => lined.asked) (fun _ _ lined => { lined with }) lined

end Lined

/-- Nothing cut the fetching short: while rows are fetched more come. -/
structure Flowing (s : System) : Prop extends Waiting s, Lined s where
  flows : s.state = .fetching → s.hasResult = true ∧ s.model.rowLimitReached = false ∧ 0 < s.fetchesInFlight

theorem submitFetches_frame (env : Env) (s : System) :
    (s.submitFetches env).hasResult = s.hasResult ∧ (s.submitFetches env).model = s.model ∧
    (s.submitFetches env).exhausted = s.exhausted ∧ s.fetchesInFlight ≤ (s.submitFetches env).fetchesInFlight ∧
    ((s.submitFetches env).state = s.state ∨ (s.submitFetches env).state = .failed) := by
  let Same (t : System) : Prop := t.hasResult = s.hasResult ∧ t.model = s.model ∧ t.exhausted = s.exhausted ∧
    s.fetchesInFlight ≤ t.fetchesInFlight ∧ (t.state = s.state ∨ t.state = .failed)
  change Same (s.submitFetches env)
  refine System.submitFetches_keeps ?_ ?_ ⟨rfl,rfl,rfl,le_rfl,.inl rfl⟩
  · rintro t ⟨has,model,exhausted,more,state⟩ _
    exact ⟨has,model,exhausted,more.trans (le_succ _),state⟩
  · rintro t error ⟨has,model,exhausted,more,state⟩
    exact ⟨has,model,exhausted,more,.inr rfl⟩

theorem Flowing.submitFetches (steady : Steady s) (lined : Lined s)
    (shown : s.state = .fetching → s.hasResult = true ∧ s.model.rowLimitReached = false)
    (left : s.state = .fetching → s.exhausted = true → 0 < s.fetchesInFlight) : Flowing (s.submitFetches env) := by
  have waiting : Waiting (s.submitFetches env) := steady.submitFetches
  obtain ⟨has,model,exhausted,more,state⟩ := submitFetches_frame env s
  refine ⟨waiting,lined.submitFetches,fun fetching => ?_⟩
  have before : s.state = .fetching := by
    obtain same | failed := state
    · exact same.symm.trans fetching
    · simp [failed] at fetching
  obtain ⟨some,open'⟩ := shown before
  rw [has,model]
  refine ⟨some,open',?_⟩
  obtain none | full | empty | flying := waiting.fetching fetching
  · simp [has,some] at none
  · simp [model,open'] at full
  · exact (left before (exhausted.symm.trans empty)).trans_le more
  · exact flying

theorem Flowing.of_idle (waiting : Waiting s) (lined : Lined s) (idle : s.state ≠ .fetching) : Flowing s :=
  ⟨waiting,lined,fun fetching => absurd fetching idle⟩

/-- The result is closed only when nothing is on its way to it, and its rows fit the grid. -/
def Careful (s : System) : Move → Prop
  | .call .closeResult => s.state ≠ .fetching ∧ ∀ entry ∈ s.outstanding, entry.2 ≠ .executed
  | .event (.fetched _ _ result _ rowCount) =>
    result = some s.resultId → rowCount ≤ s.model.maxRows - s.model.rowCount
  | _ => True

namespace Flowing
variable (flowing : Flowing s)
include flowing

theorem alike (same : Alike s t) : Flowing t := by
  refine ⟨flowing.toWaiting.alike same,flowing.toLined.alike same,?_⟩
  rw [same.2]
  exact flowing.flows

theorem executes (executes : Executes env s t) : Flowing t := by
  cases executes with
  | unopened => exact flowing
  | refused replaces same =>
    have waiting := flowing.toWaiting.executes (.refused replaces (.refl _))
    exact (of_idle waiting (.empty rfl rfl) (by simp)).alike same
  | started replaces alive =>
    exact .of_idle (flowing.toWaiting.executes (.started replaces alive)) (.empty rfl rfl) (by simp [System.started])

end Flowing

theorem ResultTableModel.applyBatch_room {model : ResultTableModel} (batch : Option Batch)
    (room : rows ≤ model.maxRows - model.rowCount) : (model.applyBatch batch rows).rowLimitReached = model.rowLimitReached := by
  cases batch with
  | none => rfl
  | some batch =>
    simp only [applyBatch,not_lt.mpr room,if_false]
    split <;> rfl

/-- The reply to this request was taken and not yet acted on; results from `n` on are new. -/
structure Lining (p : Pending) (success : Bool) (n : Nat) (s : System) : Prop extends Taken p.kind s, Lined s where
  flows : s.state = .fetching → s.hasResult = true ∧ s.model.rowLimitReached = false
  unexhausted : p.kind = .executed → s.exhausted = false
  own : s.exhausted = true → s.hasResult = true → p.kind = .fetched → p.result = s.resultId
  older : ∀ q ∈ s.hub.pending, q.result < n
  last : s.hasResult = true → p.Of s.resultId → success = true →
    ∀ q ∈ s.hub.pending, q.kind ≠ .executed ∧ (q.kind = .fetched → q.result = s.resultId)

theorem Flowing.lining (flowing : Flowing s) (queue : s.hub.pending = before ++ p :: rest)
    (event : HubEvent) (fifo : event.succeeds = true → before = []) (error : Option DbError) :
    Lining p event.succeeds s.hub.nextResultId (s.took (before ++ rest) p event error) := by
  have fewer : (before ++ rest).Sublist s.hub.pending := by
    rw [queue]
    exact Sublist.append_left (sublist_cons_self _ _) _
  have member : p ∈ s.hub.pending := by simp [queue]
  refine { flowing.toWaiting.taken queue event error with
    behind := fun has => (flowing.behind has).sublist fewer
    unexecuted := fun exhausted q member => flowing.unexecuted exhausted q (fewer.mem member)
    current := fun exhausted has q member => flowing.current exhausted has q (fewer.mem member)
    flows := fun fetching => ⟨(flowing.flows fetching).1,(flowing.flows fetching).2.1⟩
    unexhausted := fun executed => eq_false_iff.mpr fun exhausted =>
      flowing.unexecuted exhausted p member executed
    own := fun exhausted has fetched => flowing.current exhausted has p member fetched
    older := fun q member => flowing.results q (fewer.mem member)
    last := fun has own succeeded q member => ?_ }
  obtain rfl := fifo succeeded
  have behind := queue ▸ flowing.behind has
  have later := (pairwise_cons.mp behind).1 q member own
  exact ⟨fun executed => by simp [(later (.inl executed)).1] at executed,fun fetched => (later (.inr fetched)).2⟩

namespace Lining

theorem gone (lining : Lining p success n s) (gone : s.terminated = true) : Flowing s := by
  refine .of_idle (lining.toTaken.gone gone) lining.toLined ?_
  obtain closed | failed := (lining.final gone).2
  · simp [closed]
  · simp [failed]

theorem rested (lining : Lining p success n s) (lives : s.terminated = false) (other : p.kind ≠ .fetched)
    (rests : state.rests = true) : Flowing { s with state := state } :=
  .of_idle (lining.toTaken.rested lives other rests) { lining.toLined with } (state.rests_waits rests).2

theorem opened (env : Env) (lining : Lining p success n s) (kind : p.kind = .executed) (lives : s.terminated = false)
    (positive : 0 < n) (known : n < s.hub.nextResultId) (rowsAffected : Option Nat) :
    Flowing ((({ s with rowsAffected := rowsAffected }.note p.request (.opened n)).showResult env n).submitFetches env) := by
  have fetching := lining.toTaken.moved lives (by simp [kind]) (show ControllerState.fetching.awaits = none from rfl)
  have unexhausted (exhausted : s.exhausted = true) : False :=
    absurd ((lining.unexhausted kind).symm.trans exhausted) false_ne_true
  refine .submitFetches { fetching with shown := known, has := by simp [System.showResult,positive.ne'] }
    ⟨fun _ => ?_,lining.unexecuted,fun exhausted => (unexhausted exhausted).elim⟩ (fun _ => ⟨rfl,rfl⟩)
    fun _ exhausted => (unexhausted exhausted).elim
  -- no fetch of a new result is on its way
  refine pairwise_of_forall_mem_list fun q member _ _ own _ => ?_
  exact absurd own.2 (lining.older q member).ne

theorem ofLanded (lining : Lining p true n s) (own : p.Of s.resultId) (shown : s.hasResult = true) (rows : Nat) :
    Lined (s.landed rows) := by
  have last := lining.last shown own rfl
  exact ⟨lining.behind,fun _ q member => (last q member).1,fun _ _ q member => (last q member).2⟩

theorem reacts (lining : Lining p event.succeeds n s) (positive : 0 < n) (careful : Careful s (.event event))
    (flying : s.state = .fetching → 0 < s.fetchesInFlight) (reacts : Reacts env p n s event t) : Flowing t := by
  have waiting : Waiting t := lining.toTaken.reacts positive reacts
  cases reacts with
  | late gone same => exact (lining.gone gone).alike same
  | lateStatement gone _ => exact { lining.gone gone with }
  | moved lives kind rests same =>
    exact (lining.rested lives (by rcases kind with kind | kind <;> simp [kind]) rests).alike same
  | opened lives kind same _ executes => exact ((lining.rested lives (by simp [kind]) rfl).alike same).executes executes
  | answered lives kind _ rests same =>
    refine Flowing.alike ?_ same
    exact { lining.rested lives (by simp [kind]) rests with }
  | shown lives kind known => exact lining.opened env kind lives positive known _
  | released =>
    exact ⟨waiting,lining.toLined,fun fetching => ⟨(lining.flows fetching).1,(lining.flows fetching).2,flying fetching⟩⟩
  | stale lives kind other =>
    refine .submitFetches (Taken.landed (kind ▸ lining.toTaken) lives) { lining.toLined with } lining.flows
      fun fetching exhausted => ?_
    -- what is exhausted has no fetches of others on their way
    have has : s.hasResult = true := (lining.flows fetching).1
    simp [has,lining.own exhausted has kind] at other
  | unfetched => exact .of_idle waiting { lining.toLined with } (by simp)
  | complete lives own shown _ => exact .of_idle waiting { lining.ofLanded own shown _ with } (by simp)
  | landed lives own shown more =>
    refine .submitFetches { Taken.landed (own.1 ▸ lining.toTaken) lives with } (lining.ofLanded own shown _)
      (fun fetching => ⟨shown,?_⟩) fun _ exhausted => pos_of_ne_zero (more exhausted)
    change (s.model.applyBatch _ _).rowLimitReached = false
    rw [ResultTableModel.applyBatch_room _ (careful (congrArg some own.2))]
    exact (lining.flows fetching).2

end Lining

theorem Flowing.does (flowing : Flowing s) (automatic : move ≠ .call (.setAutoFetch false)) (careful : Careful s move)
    (does : Does env s move t) : Flowing t := by
  have waiting : Waiting t := flowing.toWaiting.does automatic does
  cases does with
  | nothing same | hears _ same => exact flowing.alike same
  | fails same =>
    exact (of_idle (flowing.toSteady.failed.waiting (by simp)) { flowing.toLined with } (by simp)).alike same
  | submits alive entered other same =>
    refine (of_idle (flowing.toWaiting.does automatic (show Does env s _ _ from .submits alive entered other (.refl _)))
      (flowing.toLined.appended rfl (.inr ?_) _ rfl rfl rfl rfl) ?_).alike same
    · obtain rfl | rfl := other <;> simp
    · rintro rfl
      cases entered
  | executes executes => exact flowing.executes executes
  | closes alive shown =>
    refine .of_idle waiting ⟨fun has => absurd has false_ne_true,fun _ p member => ?_,
      fun _ has => absurd has false_ne_true⟩ careful.1
    obtain old | single := mem_append.mp member
    · exact careful.2 _ (flowing.outstanding p old)
    · obtain rfl := mem_singleton.mp single
      simp
  | tunes | switches => exact ⟨waiting,{ flowing.toLined with },flowing.flows⟩
  | fetches asked =>
    exact .submitFetches { flowing.toSteady with } { flowing.toLined with }
      (fun fetching => ⟨(flowing.flows fetching).1,(flowing.flows fetching).2.1⟩) fun fetching _ => (flowing.flows fetching).2.2
  | ends => exact { flowing with }
  | gone unanswered ended final same =>
    refine (of_idle (flowing.toWaiting.does automatic (show Does env s _ _ from .gone unanswered ended final (.refl _))) { flowing.toLined with } ?_).alike same
    obtain rfl | rfl := final <;> simp
  | reacts error queue answers fifo alive reacts =>
    exact (flowing.lining queue _ (fun succeeds => fifo (alive succeeds)) error).reacts (zero_lt_of_lt flowing.shown)
      (by cases answers <;> exact careful) (fun fetching => (flowing.flows fetching).2.2) reacts

def ControllerState.busy : ControllerState → Bool
  | .opening | .executing | .fetching | .closing => true
  | _ => false

def Automatic (env : Env) (s t : System) : Prop := ∃ move, Step env s move t ∧ move ≠ .call (.setAutoFetch false)

def CarefullyAutomatic (env : Env) (s t : System) : Prop :=
  ∃ move, Step env s move t ∧ move ≠ .call (.setAutoFetch false) ∧ Careful s move

theorem Waiting.step (waiting : Waiting s) (step : Automatic env s t) : Waiting t :=
  let ⟨_,step,automatic⟩ := step
  waiting.does automatic step.does

theorem Flowing.step (flowing : Flowing s) (step : CarefullyAutomatic env s t) : Flowing t :=
  let ⟨_,step,automatic,careful⟩ := step
  flowing.does automatic careful step.does

theorem start_flowing (maxRows : Nat) (maxFetchesInFlight fetchRows : Positive) :
    Flowing (.start (.new maxRows maxFetchesInFlight fetchRows true)) where
  ordered := Pairwise.nil
  numbered := by simp [System.start]
  outstanding := by simp [System.start]
  results := by simp [System.start]
  shown := one_pos
  has := by simp [System.start,SessionController.new]
  automatic := rfl
  flight _ := rfl
  final gone := by simp [System.start,SessionController.new] at gone
  awaited kind awaits := by cases awaits
  fetching fetching := by cases fetching
  behind _ := Pairwise.nil
  unexecuted _ := by simp [System.start]
  current _ _ := by simp [System.start]
  flows fetching := by cases fetching

/-- Whatever is called and in whatever order the replies come, with automatic fetching on: when
nothing is outstanding the controller is busy exactly if it still fetches a result that was
closed, is full or was taken for exhausted. That takes a result that is closed while rows or a
statement are on their way, or a batch that does not fit the grid. -/
theorem idle_controller_busy_iff
    (run : ReflTransGen (Automatic env) (.start (.new maxRows maxFetchesInFlight fetchRows true)) s)
    (idle : s.outstanding = []) :
    (s.state.busy = true ↔ s.state = .fetching ∧
      (s.hasResult = false ∨ s.model.rowLimitReached = true ∨ s.exhausted = true)) ∧
    (ReflTransGen (CarefullyAutomatic env) (.start (.new maxRows maxFetchesInFlight fetchRows true)) s →
      s.state.busy = false) := by
  have waiting : Waiting s := by
    refine ReflTransGen.head_induction_on (motive := fun s _ => Waiting s → Waiting _) run id
      (fun step _ ih waiting => ih (waiting.step step)) (start_flowing maxRows maxFetchesInFlight fetchRows).toWaiting
  have unanswered : s.hub.pending = [] := by
    refine eq_nil_iff_forall_not_mem.mpr fun p member => ?_
    have known := waiting.outstanding p member
    simp [idle] at known
  have unflown : s.state = .fetching → s.fetchesInFlight = 0 := by
    intro fetching
    have lives : s.terminated = false := eq_false_iff.mpr fun gone => by
      obtain closed | failed := (waiting.final gone).2
      · simp [closed] at fetching
      · simp [failed] at fetching
    simp [waiting.flight lives,unanswered]
  have fetching : s.state.busy = true → s.state = .fetching := by
    intro busy
    have awaited := waiting.awaited
    cases state : s.state <;> simp [state,ControllerState.busy,ControllerState.awaits,unanswered] at busy awaited ⊢
  refine ⟨⟨fun busy => ⟨fetching busy,?_⟩,fun stalled => by simp [stalled.1,ControllerState.busy]⟩,fun careful => ?_⟩
  · have cut := waiting.fetching (fetching busy)
    simpa [unflown (fetching busy)] using cut
  · have flowing : Flowing s := by
      refine ReflTransGen.head_induction_on (motive := fun s _ => Flowing s → Flowing _) careful id
        (fun step _ ih flowing => ih (flowing.step step)) (start_flowing maxRows maxFetchesInFlight fetchRows)
    refine eq_false_iff.mpr fun busy => ?_
    have flying := (flowing.flows (fetching busy)).2.2
    simp [unflown (fetching busy)] at flying

/-- Over the same runs requests wait in the order of their numbers, the counter of fetches of a live
session is the number that wait, and a state that waits for a reply has its request on the way. -/
theorem counters_match_the_hub
    (run : ReflTransGen (Automatic env) (.start (.new maxRows maxFetchesInFlight fetchRows true)) s) :
    s.hub.pending.Pairwise (fun p q => p.request < q.request) ∧
    (s.terminated = false → s.fetchesInFlight = s.hub.pending.countP fun p => p.kind = .fetched) ∧
    ∀ kind, s.state.awaits = some kind → ∃ p ∈ s.hub.pending, p.kind = kind := by
  have waiting : Waiting s := by
    refine ReflTransGen.head_induction_on (motive := fun s _ => Waiting s → Waiting _) run id
      (fun step _ ih waiting => ih (waiting.step step)) (start_flowing maxRows maxFetchesInFlight fetchRows).toWaiting
  exact ⟨waiting.ordered,waiting.flight,waiting.awaited⟩

end

def lost : DbError := ⟨.networkLost,.lost,"session is gone"⟩
def one : Positive := ⟨1,Nat.one_pos⟩
def willing : Env := ⟨one,fun _ => none,lost,fun _ => [⟨"ID",1⟩]⟩

def System.answered (event : HubEvent) (s : System) : System :=
  { s with hub := { s.hub with
    pending := s.hub.pending.tail, nextResultId := s.hub.nextResultId + event.opens } }.handleEvent willing event

theorem answered_step {s : System} (queue : s.hub.pending = oldest :: rest) (alive : s.hub.ended = false)
    (answers : Answers s.hub.nextResultId oldest event) : Step willing s (.event event) (s.answered event) := by
  have tail : s.hub.pending.tail = rest := by simp [queue]
  unfold System.answered
  rw [tail]
  exact .event (.replied queue (.inl alive) answers)

def fresh : System := .start (.new 2 one one true)
def openedSession : System := (Call.openSession.perform willing fresh).answered (.opened 1 none 0)

def fetchingSession : System :=
  (Call.execute.perform willing openedSession).answered (.executed 2 none (some 1) none)

/-- The result is closed in mid-fetch, and the replies to the fetch and to the close are taken. -/
def abandonedFetch : System :=
  ((Call.closeResult.perform willing fetchingSession).answered (.fetched 3 none (some 1) (some ⟨1,1⟩) 1)).answered
    (.resultClosed 4 none)

def fullGrid : System := fetchingSession.answered (.fetched 3 none (some 1) (some ⟨1,3⟩) 3)

theorem fetchingSession_run : ReflTransGen (CarefullyAutomatic willing) fresh fetchingSession := by
  have first : CarefullyAutomatic willing fresh (Call.openSession.perform willing fresh) :=
    ⟨_,.call _,by simp,trivial⟩
  have second : CarefullyAutomatic willing (Call.openSession.perform willing fresh) openedSession :=
    ⟨_,answered_step rfl rfl (.opened 1 none 0),by simp,trivial⟩
  have third : CarefullyAutomatic willing openedSession (Call.execute.perform willing openedSession) :=
    ⟨_,.call _,by simp,trivial⟩
  have fourth : CarefullyAutomatic willing (Call.execute.perform willing openedSession) fetchingSession :=
    ⟨_,answered_step rfl rfl (.result 2 none),by simp,trivial⟩
  exact (((ReflTransGen.single first).tail second).tail third).tail fourth

theorem CarefullyAutomatic.automatic (step : CarefullyAutomatic env s t) : Automatic env s t :=
  let ⟨move,taken,automatic,_⟩ := step
  ⟨move,taken,automatic⟩

theorem automatic_run (run : ReflTransGen (CarefullyAutomatic env) s t) : ReflTransGen (Automatic env) s t :=
  ReflTransGen.mono (fun _ _ => CarefullyAutomatic.automatic) s t run

def fetchingTwice : System := Call.fetchMoreRows.perform willing ((Call.setMaxFetchesInFlight 2).perform willing fetchingSession)

theorem two_fetches_are_counted : fetchingTwice.fetchesInFlight = 2 ∧
    fetchingTwice.hub.pending.Pairwise (fun p q => p.request < q.request) ∧
    fetchingTwice.hub.pending.countP (fun p => p.kind = .fetched) = 2 := by
  have tuned : Automatic willing fetchingSession _ := ⟨_,.call (.setMaxFetchesInFlight 2),by simp⟩
  have fetches : Automatic willing _ fetchingTwice := ⟨_,.call .fetchMoreRows,by simp⟩
  have counters := counters_match_the_hub (((automatic_run fetchingSession_run).tail tuned).tail fetches)
  exact ⟨rfl,counters.1,(counters.2.1 rfl).symm⟩

theorem abandonedFetch_run : ReflTransGen (Automatic willing) fresh abandonedFetch := by
  have first : Automatic willing fetchingSession (Call.closeResult.perform willing fetchingSession) :=
    ⟨_,.call _,by simp⟩
  have second : Automatic willing (Call.closeResult.perform willing fetchingSession)
      ((Call.closeResult.perform willing fetchingSession).answered (.fetched 3 none (some 1) (some ⟨1,1⟩) 1)) :=
    ⟨_,answered_step rfl rfl (.fetched 3 1),by simp⟩
  have third : Automatic willing
      ((Call.closeResult.perform willing fetchingSession).answered (.fetched 3 none (some 1) (some ⟨1,1⟩) 1))
      abandonedFetch := ⟨_,answered_step rfl rfl (.resultClosed 4 none),by simp⟩
  exact (((automatic_run fetchingSession_run).tail first).tail second).tail third

/-- A result that is closed in mid-fetch, and one with more rows than the grid takes, leave the
controller fetching with nothing outstanding. -/
theorem cut_short_stays_busy : ReflTransGen (Automatic willing) fresh abandonedFetch ∧ abandonedFetch.outstanding = [] ∧
    abandonedFetch.hub.pending = [] ∧ abandonedFetch.state = .fetching ∧
    ReflTransGen (Automatic willing) fresh fullGrid ∧ fullGrid.outstanding = [] ∧
    fullGrid.hub.pending = [] ∧ fullGrid.state = .fetching := by
  refine ⟨abandonedFetch_run,rfl,rfl,rfl,?_,rfl,rfl,rfl⟩
  have full : Automatic willing fetchingSession fullGrid := ⟨_,answered_step rfl rfl (.fetched 3 3),by simp⟩
  exact (automatic_run fetchingSession_run).tail full

def exhaustedResult : System := fetchingSession.answered (.fetched 3 none (some 1) (some ⟨1,0⟩) 0)

theorem exhausted_result_is_not_busy :
    ReflTransGen (CarefullyAutomatic willing) fresh exhaustedResult ∧ exhaustedResult.outstanding = [] ∧
    exhaustedResult.state.busy = false := by
  have last : CarefullyAutomatic willing fetchingSession exhaustedResult :=
    ⟨_,answered_step rfl rfl (.fetched 3 0),by simp,fun _ => zero_le _⟩
  have run : ReflTransGen (CarefullyAutomatic willing) fresh exhaustedResult := fetchingSession_run.tail last
  exact ⟨run,rfl,(idle_controller_busy_iff (automatic_run run) rfl).2 run⟩

end Reldex.Ui
