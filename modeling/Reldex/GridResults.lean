import Reldex.SessionWaits

/-! Whose rows the grid shows. The reply to a statement is taken for the newest statement's,
whichever it answers. -/
namespace Reldex.Ui
open List Relation Option Nat

section
variable {env : Env} {s t : System} {move : Move}

/-- What is shown comes from the answer to the newest statement, and the state fits it. -/
structure Shows (env : Env) (s : System) : Prop where
  result : s.resultId ≠ 0 → s.answer = some (.opened s.resultId)
  columns : s.model.columns ≠ [] → ∃ r, s.answer = some (.opened r) ∧ s.model.columns = env.describe r
  batches : ∀ entry ∈ s.model.batches, s.answer = some (.opened entry.batch.result)
  executing : s.state = .executing → s.answer = none
  rows : s.state = .fetching ∨ s.state = .resultComplete → ∃ r, s.answer = some (.opened r)

def Foreign (s : System) : Move → Prop
  | .event (.executed request _ (some _) _) => s.terminated = false ∧ s.newest ≠ some request
  | _ => False

def ControllerState.plain : ControllerState → Bool
  | .executing | .fetching | .resultComplete => false
  | _ => true

theorem ControllerState.rests_plain (state : ControllerState) (rests : state.rests = true) : state.plain = true := by
  cases state <;> simp [ControllerState.rests,plain] at rests ⊢

/-- The newest statement is the last one that is unanswered, and while the session lasts no
other is once it is answered. -/
structure Traced (env : Env) (s : System) : Prop extends Books s where
  bounded : ∀ request, s.newest = some request → request < s.nextRequestId
  latest : ∀ request, s.newest = some request → ∀ p ∈ s.hub.pending, p.kind = .executed → p.request ≤ request
  unanswered : ∀ request, s.newest = some request → ∀ p ∈ s.hub.pending, p.request = request → s.answer = none
  answered : s.hub.ended = false → s.newest = none ∨ s.answer ≠ none → ∀ p ∈ s.hub.pending, p.kind ≠ .executed
  shows : ∀ request, s.newest = some request → Shows env s
  gone : s.terminated = true → s.hub.retired = true ∧ s.state.plain = true

theorem Shows.moved (shows : Shows env s) (plain : state.plain = true) : Shows env { s with state := state } where
  result := shows.result
  columns := shows.columns
  batches := shows.batches
  executing executing := by
    change state = _ at executing
    simp [executing,ControllerState.plain] at plain
  rows rows := by
    obtain fetching | complete := rows
    · change state = _ at fetching
      simp [fetching,ControllerState.plain] at plain
    · change state = _ at complete
      simp [complete,ControllerState.plain] at plain

theorem Shows.empty (result : s.resultId = 0) (columns : s.model.columns = []) (batches : s.model.batches = [])
    (state : s.state.plain = true ∨ s.state = .executing ∧ s.answer = none) : Shows env s where
  result shown := absurd result shown
  columns shown := absurd columns shown
  batches := by simp [batches]
  executing executing := by
    obtain plain | ⟨_,none⟩ := state
    · simp [executing,ControllerState.plain] at plain
    · exact none
  rows rows := by
    obtain fetching | complete := rows
    · simp [fetching,ControllerState.plain] at state
    · simp [complete,ControllerState.plain] at state

namespace Traced
variable (traced : Traced env s)
include traced

theorem moved (plain : state.plain = true) : Traced env { s with state := state } :=
  { traced with
    shows := fun request newest => (traced.shows request newest).moved plain
    gone := fun gone => ⟨(traced.gone gone).1,plain⟩ }

theorem alike (same : Alike s t) : Traced env t := by
  rw [same.2]
  exact { traced with
    numbered := fun p member => (traced.numbered p member).trans_le same.1
    bounded := fun request newest => (traced.bounded request newest).trans_le same.1
    shows := fun request newest => { traced.shows request newest with } }

theorem accepted (known : about < s.hub.nextResultId) (other : kind ≠ .executed) :
    Traced env (s.accepted kind about) where
  gone := traced.gone
  toBooks := traced.toBooks.accepted known
  bounded request newest := (traced.bounded request newest).trans (lt_succ_self _)
  latest request newest p member executed := by
    obtain old | single := mem_append.mp member
    · exact traced.latest request newest p old executed
    · obtain rfl := mem_singleton.mp single
      exact absurd executed other
  unanswered request newest p member same := by
    obtain old | single := mem_append.mp member
    · exact traced.unanswered request newest p old same
    · obtain rfl := mem_singleton.mp single
      exact absurd same (traced.bounded request newest).ne'
  answered lasts known p member := by
    obtain old | single := mem_append.mp member
    · exact traced.answered lasts known p old
    · obtain rfl := mem_singleton.mp single
      exact other
  shows request newest := { traced.shows request newest with }

theorem submitFetches : Traced env (s.submitFetches env) := by
  refine System.submitFetches_keeps (fun s traced _ => ?_) (fun s error traced =>
    (traced.moved (show ControllerState.failed.plain = true from rfl)).alike ⟨le_succ _,rfl⟩) traced
  have accepted : Traced env (s.accepted .fetched s.resultId) := traced.accepted traced.shown (by decide)
  exact { accepted with shows := fun request newest => { accepted.shows request newest with } }

theorem replaces (replaces : Replaces env s t) : Traced env t := by
  cases replaces with
  | kept _ same => exact traced.alike same
  | closed _ same => exact (traced.accepted traced.shown (by decide)).alike same

theorem executes (executes : Executes env s t) : Traced env t := by
  cases executes with
  | unopened => exact traced
  | refused replaces same =>
    have replaced := traced.replaces replaces
    refine alike ?_ same
    exact { replaced with
      shown := zero_lt_of_lt replaced.shown
      has := by simp [System.clearGrid]
      shows := fun _ _ => .empty rfl rfl rfl (.inl rfl)
      gone := fun gone => ⟨(replaced.gone gone).1,rfl⟩ }
  | @started u replaces alive =>
    have replaced := traced.replaces replaces
    have cleared : Books u.clearGrid := { replaced.toBooks with
      shown := zero_lt_of_lt replaced.shown
      has := by simp [System.clearGrid] }
    have accepted : Books (u.clearGrid.accepted .executed 0) := cleared.accepted cleared.shown
    refine { accepted with
      bounded := fun request newest => ?_
      latest := fun request newest p member _ => ?_
      unanswered := fun _ _ _ _ _ => rfl
      answered := fun _ known => ?_
      shows := fun request newest => .empty rfl rfl rfl (.inr ⟨rfl,rfl⟩)
      gone := fun gone => absurd ((replaced.gone gone).1.symm.trans alive) (by decide) }
    · obtain rfl := some.inj newest
      exact lt_succ_self _
    · obtain rfl := some.inj newest
      exact le_of_lt_succ (accepted.numbered p member)
    · obtain none | some := known
      · cases none
      · exact absurd rfl some

theorem closed (shown : s.resultId ≠ 0) : Traced env s.closed := by
  have accepted : Traced env (s.accepted .resultClosed s.resultId) := traced.accepted traced.shown (by decide)
  have known : s.newest = none ∨ s.answer ≠ none := by
    cases newest : s.newest with
    | none => exact .inl rfl
    | some request =>
      refine .inr ?_
      rw [(traced.shows request newest).result shown]
      simp
  exact { accepted with
    shown := zero_lt_of_lt traced.shown
    has := by simp [System.closed]
    bounded := by simp [System.closed]
    latest := by simp [System.closed]
    unanswered := by simp [System.closed]
    answered := fun lasts _ => accepted.answered lasts known
    shows := by simp [System.closed] }

end Traced

theorem ResultTableModel.applyBatch_columns {model : ResultTableModel} :
    (model.applyBatch batch rows).columns = model.columns := by
  cases batch with
  | none => rfl
  | some batch =>
    dsimp only [applyBatch]
    split_ifs <;> rfl

theorem ResultTableModel.applyBatch_batches {model : ResultTableModel}
    (member : entry ∈ (model.applyBatch batch rows).batches) : entry ∈ model.batches ∨ entry.batch ∈ batch := by
  cases batch with
  | none => exact .inl member
  | some batch =>
    dsimp only [applyBatch] at member
    split_ifs at member
    · exact .inl member
    · exact .inl member
    · obtain old | single := mem_append.mp member
      · exact .inl old
      · obtain rfl := mem_singleton.mp single
        exact .inr rfl
    · obtain old | single := mem_append.mp member
      · exact .inl old
      · obtain rfl := mem_singleton.mp single
        exact .inr rfl

structure Tracing (env : Env) (p : Pending) (s : System) : Prop extends Traced env s where
  apart : ∀ q ∈ s.hub.pending, q.request ≠ p.request
  own : s.newest = some p.request → s.answer = none
  last : s.newest = some p.request → s.hub.ended = false → ∀ q ∈ s.hub.pending, q.kind ≠ .executed

theorem Traced.tracing (traced : Traced env s) (queue : s.hub.pending = before ++ p :: rest)
    (event : HubEvent) (fifo : s.hub.ended = false → before = []) (error : Option DbError) :
    Tracing env p (s.took (before ++ rest) p event error) := by
  have fewer : (before ++ rest).Sublist s.hub.pending := by
    rw [queue]
    exact List.Sublist.append_left (sublist_cons_self _ _) _
  have member : p ∈ s.hub.pending := by simp [queue]
  have ordered := pairwise_append.mp (queue ▸ traced.ordered)
  refine { traced.toBooks.replied queue (Nat.le_add_right ..) error with
    bounded := traced.bounded
    latest := fun request newest q member => traced.latest request newest q (fewer.mem member)
    unanswered := fun request newest q member => traced.unanswered request newest q (fewer.mem member)
    answered := fun lasts known q member => traced.answered lasts known q (fewer.mem member)
    shows := fun request newest => { traced.shows request newest with }
    gone := traced.gone
    apart := fun q member => ?_
    own := fun newest => traced.unanswered p.request newest p member rfl
    last := fun newest lasts q member executed => ?_ }
  · obtain old | new := mem_append.mp member
    · exact (ordered.2.2 q old p mem_cons_self).ne
    · exact ((pairwise_cons.mp ordered.2.1).1 q new).ne'
  · obtain rfl := fifo lasts
    have later : p.request < q.request := (pairwise_cons.mp ordered.2.1).1 q member
    exact absurd (traced.latest p.request newest q (fewer.mem member) executed) (not_le.mpr later)

namespace Tracing
variable (tracing : Tracing env p s)
include tracing

theorem blank (newest : s.newest = some p.request) : s.resultId = 0 ∧ s.model.columns = [] ∧ s.model.batches = [] := by
  have shows : Shows env s := tracing.shows p.request newest
  have none : s.answer = none := tracing.own newest
  refine ⟨?_,?_,eq_nil_iff_forall_not_mem.mpr fun entry member => ?_⟩
  · by_contra shown
    exact absurd (shows.result shown) (by simp [none])
  · by_contra shown
    obtain ⟨r,opened,_⟩ := shows.columns shown
    simp [none] at opened
  · have opened := shows.batches entry member
    simp [none] at opened

theorem noted (answer : Answer) (plain : state.plain = true) :
    Traced env { s.note p.request answer with state := state } := by
  by_cases newest : s.newest = some p.request
  · have noted : s.note p.request answer = { s with answer := some answer } := by simp [System.note,newest]
    obtain ⟨result,columns,batches⟩ := tracing.blank newest
    rw [noted]
    exact { tracing.toTraced with
      unanswered := fun request same q member found => by
        obtain rfl := some.inj (newest.symm.trans same)
        exact absurd found (tracing.apart q member)
      answered := fun lasts _ => tracing.last newest lasts
      shows := fun _ _ => .empty result columns batches (.inl plain)
      gone := fun gone => ⟨(tracing.gone gone).1,plain⟩ }
  · have noted : s.note p.request answer = s := by simp [System.note,newest]
    rw [noted]
    exact tracing.toTraced.moved plain

theorem opened (newest : s.newest = some p.request) (positive : r ≠ 0)
    (known : r < s.hub.nextResultId) (lives : s.terminated = false) (rowsAffected : Option Nat) :
    Traced env (System.showResult env r (System.note p.request (.opened r) { s with rowsAffected := rowsAffected })) := by
  have answer : (System.note p.request (.opened r) { s with rowsAffected := rowsAffected }).answer = some (.opened r) := by
    simp [System.note,newest]
  refine { tracing.toTraced with
    shown := known
    has := by simp [System.showResult,positive]
    unanswered := fun request same q member found => ?_
    answered := fun lasts _ => tracing.last newest lasts
    shows := fun _ _ => ⟨fun _ => answer,fun shown => ⟨r,answer,?_⟩,by simp [System.showResult,ResultTableModel.beginResult],
      fun executing => by simp [System.showResult] at executing,fun _ => ⟨r,answer⟩⟩
    gone := fun gone => absurd (lives.symm.trans gone) Bool.false_ne_true }
  · obtain rfl := some.inj (newest.symm.trans same)
    exact absurd found (tracing.apart q member)
  · simp only [System.showResult,ResultTableModel.beginResult] at shown ⊢
    split at shown
    · exact absurd rfl shown
    · rename_i described
      rw [if_neg described]

theorem showsLanded (shown : s.hasResult = true) (rows : Nat) (newest : s.newest = some request) :
    Shows env { s with model := s.model.applyBatch (some ⟨s.resultId,rows⟩) rows } := by
  have shows := tracing.shows request newest
  have answer := shows.result (tracing.has.mp shown)
  refine { shows with
    columns := ?_
    batches := fun entry member => ?_ }
  · rw [ResultTableModel.applyBatch_columns]
    exact shows.columns
  · obtain old | new := ResultTableModel.applyBatch_batches member
    · exact shows.batches entry old
    · rw [← some.inj new]
      exact answer

theorem reacts (positive : 0 < n) (own : ¬Foreign s (.event event))
    (reacts : Reacts env p n s event t) : Traced env t := by
  have landed : Traced env { s with fetchesInFlight := s.fetchesInFlight - 1 } :=
    { tracing.toTraced with shows := fun request newest => { tracing.shows request newest with } }
  cases reacts with
  | late _ same => exact tracing.toTraced.alike same
  | lateStatement gone _ => exact tracing.noted .failed (tracing.gone gone).2
  | moved _ _ rests same => exact (tracing.toTraced.moved (ControllerState.rests_plain _ rests)).alike same
  | opened _ _ same _ executes => exact ((tracing.toTraced.moved rfl).alike same).executes executes
  | answered _ _ _ rests same => exact (tracing.noted _ (ControllerState.rests_plain _ rests)).alike same
  | shown lives _ known =>
    have newest : s.newest = some p.request := by
      by_contra other
      exact own ⟨lives,other⟩
    exact (tracing.opened newest positive.ne' known lives _).submitFetches
  | released => exact tracing.toTraced
  | stale => exact landed.submitFetches
  | unfetched => exact landed.moved rfl
  | complete lives _ shown _ =>
    exact { landed with
      shows := fun request newest => { tracing.showsLanded shown _ newest with
        executing := by simp
        rows := fun _ => ⟨_,(tracing.shows request newest).result (tracing.has.mp shown)⟩ }
      gone := fun gone => absurd (lives.symm.trans gone) Bool.false_ne_true }
  | landed _ _ shown _ =>
    exact Traced.submitFetches { landed with
      shows := fun request newest => { tracing.showsLanded shown _ newest with } }

end Tracing

theorem Traced.does (traced : Traced env s) (own : ¬Foreign s move) (does : Does env s move t) : Traced env t := by
  cases does with
  | nothing same | hears _ same => exact traced.alike same
  | fails same => exact (traced.moved rfl).alike same
  | @submits kind state _ _ alive entered other same =>
    have accepted : Traced env (s.accepted kind 0) :=
      traced.accepted (zero_lt_of_lt traced.shown) (by rcases other with rfl | rfl <;> decide)
    have plain : state.plain = true := by
      rcases other with rfl | rfl <;> cases state <;> first | rfl | cases entered
    exact (accepted.moved plain).alike same
  | executes executes => exact traced.executes executes
  | closes _ shown => exact traced.closed shown
  | tunes | switches => exact { traced with shows := fun request newest => { traced.shows request newest with } }
  | fetches => exact submitFetches { traced with shows := fun request newest => { traced.shows request newest with } }
  | ends => exact { traced with
      answered := by simp
      shows := fun request newest => { traced.shows request newest with } }
  | @gone state _ _ _ _ final same =>
    have plain : state.plain = true := by rcases final with rfl | rfl <;> rfl
    have moved := traced.moved plain
    refine alike ?_ same
    exact { moved with
      shows := fun request newest => { moved.shows request newest with }
      gone := fun _ => ⟨rfl,plain⟩ }
  | reacts error queue answers fifo _ reacts =>
    exact (traced.tracing queue _ fifo error).reacts (zero_lt_of_lt traced.shown) (by cases answers <;> exact own) reacts

theorem Traced.step (traced : Traced env s) (step : Step env s move t) (own : ¬Foreign s move) : Traced env t :=
  traced.does own step.does

theorem submitFetches_record (env : Env) (s : System) : (s.submitFetches env).resultId = s.resultId ∧
    (s.submitFetches env).newest = s.newest ∧ (s.submitFetches env).answer = s.answer := by
  let Same (t : System) : Prop := t.resultId = s.resultId ∧ t.newest = s.newest ∧ t.answer = s.answer
  change Same (s.submitFetches env)
  exact System.submitFetches_keeps (fun _ same _ => same) (fun _ _ same => same) ⟨rfl,rfl,rfl⟩

theorem onExecuted_foreign (env : Env) (r : Nat) (rowsAffected : Option Nat) (other : s.newest ≠ some request) :
    (s.onExecuted env request none (some r) rowsAffected).resultId = r ∧
    (s.onExecuted env request none (some r) rowsAffected).newest = s.newest ∧
    (s.onExecuted env request none (some r) rowsAffected).answer = s.answer := by
  obtain ⟨result,newest,answer⟩ := submitFetches_record env
    (System.showResult env r (System.note request (.opened r) { s with rowsAffected := rowsAffected }))
  refine ⟨result,newest,answer.trans ?_⟩
  simp [System.showResult,System.note,other]

theorem Traced.foreign (traced : Traced env s) (delivers : Delivers s.hub event hub) (foreign : Foreign s (.event event)) :
    ∃ request, ({ s with hub := hub }.handleEvent env event).newest = some request ∧
      ¬Shows env ({ s with hub := hub }.handleEvent env event) := by
  obtain replied | ⟨rfl,_⟩ | ⟨possiblyActive,rfl,_⟩ | ⟨lost,transactionPossiblyLost,error,rfl,_⟩ := delivers.cases
  · obtain @⟨before,p,rest,queue,answers,_,alive⟩ := replied
    have member : p ∈ s.hub.pending := by simp [queue]
    cases answers with
    | result request rowsAffected =>
      obtain ⟨lives,other⟩ := foreign
      have pending : ¬(s.newest = none ∨ s.answer ≠ none) := fun known =>
        traced.answered (alive rfl) known _ member rfl
      simp only [not_or,not_not] at pending
      obtain ⟨newest,some⟩ := ne_none_iff_exists'.mp pending.1
      let taken := System.settle request none { s with hub := { s.hub with
        pending := before ++ rest, nextResultId := s.hub.nextResultId + 1 } }
      have handled : taken.onExecuted env request none (Option.some s.hub.nextResultId) rowsAffected =
          System.handleEvent env (.executed request none (Option.some s.hub.nextResultId) rowsAffected) { s with hub :=
            { s.hub with pending := before ++ rest, nextResultId := s.hub.nextResultId + 1 } } :=
        (if_neg (by simp [System.settle,lives])).symm
      obtain ⟨result,same,answer⟩ := onExecuted_foreign env s.hub.nextResultId rowsAffected
        (show taken.newest ≠ Option.some request from other)
      rw [handled] at result same answer
      refine ⟨newest,same.trans some,fun shows => ?_⟩
      have shown := shows.result (by
        rw [HubEvent.opens,result]
        exact (zero_lt_of_lt traced.shown).ne')
      rw [HubEvent.opens,answer] at shown
      simp [taken,System.settle,pending.2] at shown
    | opened | failed | executed | unfetched | fetched | resultClosed | sessionClosed => exact foreign.elim
  · exact foreign.elim
  · exact foreign.elim
  · exact foreign.elim

/-- The state that a statement leaves: it failed, it is done, its rows are fetched, or they were
not because the hub refused. -/
inductive Reflects : Option DbError → Option Nat → ControllerState → Prop where
  | failed (error : DbError) : Reflects (some error) result .failed
  | done : Reflects none none .ready
  | rows (result : Nat) : Reflects none (some result) .fetching
  | unfetched (result : Nat) : Reflects none (some result) .failed

theorem onExecuted_reflects (env : Env) (s : System) (request : Nat) (error : Option DbError)
    (result rowsAffected : Option Nat) : Reflects error result (s.onExecuted env request error result rowsAffected).state := by
  unfold System.onExecuted
  cases error with
  | some error => exact .failed error
  | none =>
    cases result with
    | none => exact .done
    | some r =>
      obtain ⟨_,_,_,_,same | failed⟩ := submitFetches_frame env
        (System.showResult env r (System.note request (.opened r) { s with rowsAffected := rowsAffected }))
      · exact same.symm ▸ Reflects.rows r
      · exact failed.symm ▸ Reflects.unfetched r

theorem executed_reflects (step : Step env s (.event (.executed request error result rowsAffected)) t)
    (lives : s.terminated = false) : Reflects error result t.state := by
  cases step with
  | event delivers =>
    unfold System.handleEvent
    simp only [HubEvent.answered]
    rw [if_neg (by simp [System.settle,lives])]
    exact onExecuted_reflects ..

theorem start_traced (env : Env) (maxRows : Nat) (maxFetchesInFlight fetchRows : Positive) (autoFetch : Bool) :
    Traced env (.start (.new maxRows maxFetchesInFlight fetchRows autoFetch)) where
  ordered := List.Pairwise.nil
  numbered := by simp [System.start]
  outstanding := by simp [System.start]
  results := by simp [System.start]
  shown := one_pos
  has := by simp [System.start,SessionController.new]
  bounded := by simp [System.start]
  latest := by simp [System.start]
  unanswered := by simp [System.start]
  answered _ _ := by simp [System.start]
  shows := by simp [System.start]
  gone gone := by simp [System.start,SessionController.new] at gone

def OwnStep (env : Env) (s t : System) : Prop := ∃ move, Step env s move t ∧ ¬Foreign s move

/-- After a step of any kind, if none before it showed another statement's rows: the result, the
columns, the batches and the state are those of the newest statement's answer exactly if the
step is not another statement's reply with rows. The reply to a statement sets the state to
what became of it. -/
theorem grid_shows_newest_iff
    (run : ReflTransGen (OwnStep env) (.start (.new maxRows maxFetchesInFlight fetchRows autoFetch)) s)
    (step : Step env s move t) :
    ((∀ request, t.newest = some request → Shows env t) ↔ ¬Foreign s move) ∧
    ∀ request error result rowsAffected, move = .event (.executed request error result rowsAffected) →
      s.newest = some request → s.terminated = false → Reflects error result t.state := by
  have traced : Traced env s := by
    refine ReflTransGen.head_induction_on (motive := fun s _ => Traced env s → Traced env _) run id
      (fun step _ ih traced => ?_) (start_traced env maxRows maxFetchesInFlight fetchRows autoFetch)
    obtain ⟨_,step,own⟩ := step
    exact ih (traced.step step own)
  refine ⟨⟨fun shows foreign => ?_,fun own => (traced.step step own).shows⟩,?_⟩
  · cases step with
    | call | ends => exact foreign
    | event delivers =>
      obtain ⟨request,newest,wrong⟩ := traced.foreign delivers foreign
      exact wrong (shows request newest)
  · rintro request error result rowsAffected rfl _ lives
    exact executed_reflects step lives

end

def overtaken : System := Call.execute.perform willing (Call.execute.perform willing openedSession)
def firstShown : System := overtaken.answered (.executed 2 none (some 1) none)

def secondFailed : System := firstShown.answered (.executed 3 (some lost) none none)

def firstComplete : System :=
  (secondFailed.answered (.fetched 4 none (some 1) (some ⟨1,1⟩) 1)).answered (.fetched 5 none (some 1) (some ⟨1,0⟩) 0)

theorem overtaken_run : ReflTransGen (OwnStep willing) fresh overtaken := by
  have first : OwnStep willing fresh (Call.openSession.perform willing fresh) := ⟨_,.call _,id⟩
  have second : OwnStep willing (Call.openSession.perform willing fresh) openedSession :=
    ⟨_,answered_step rfl rfl (.opened 1 none 0),id⟩
  have third : OwnStep willing openedSession (Call.execute.perform willing openedSession) := ⟨_,.call _,id⟩
  have fourth : OwnStep willing (Call.execute.perform willing openedSession) overtaken := ⟨_,.call _,id⟩
  exact (((ReflTransGen.single first).tail second).tail third).tail fourth

theorem firstComplete_steps : Step willing overtaken (.event (.executed 2 none (some 1) none)) firstShown ∧
    ReflTransGen (fun s t => ∃ move, Step willing s move t) firstShown firstComplete := by
  have second : ∃ move, Step willing firstShown move secondFailed :=
    ⟨_,answered_step rfl rfl (.failed 3 lost none)⟩
  have third : ∃ move, Step willing secondFailed move (secondFailed.answered (.fetched 4 none (some 1) (some ⟨1,1⟩) 1)) :=
    ⟨_,answered_step rfl rfl (.fetched 4 1)⟩
  have fourth : ∃ move, Step willing (secondFailed.answered (.fetched 4 none (some 1) (some ⟨1,1⟩) 1)) move firstComplete :=
    ⟨_,answered_step rfl rfl (.fetched 5 0)⟩
  exact ⟨answered_step rfl rfl (.result 2 none),((ReflTransGen.single second).tail third).tail fourth⟩

/-- The grid shows the rows of the first statement after the second was submitted, and even
after it failed: the result of the first is complete and nothing else is said. -/
theorem first_statement_is_shown : ReflTransGen (OwnStep willing) fresh overtaken ∧
    Step willing overtaken (.event (.executed 2 none (some 1) none)) firstShown ∧
    firstShown.newest = some 3 ∧ firstShown.answer = none ∧ firstShown.resultId = 1 ∧
    firstShown.model.columns = willing.describe 1 ∧ firstShown.state = .fetching ∧
    ReflTransGen (fun s t => ∃ move, Step willing s move t) firstShown firstComplete ∧
    firstComplete.newest = some 3 ∧ firstComplete.answer = some .failed ∧ firstComplete.resultId = 1 ∧
    firstComplete.model.batches = [⟨⟨1,1⟩,0,1⟩] ∧ firstComplete.state = .resultComplete :=
  ⟨overtaken_run,firstComplete_steps.1,rfl,rfl,rfl,rfl,rfl,firstComplete_steps.2,rfl,rfl,rfl,rfl,rfl⟩

def secondShown : System := (overtaken.answered (.executed 2 none none none)).answered (.executed 3 none (some 1) none)

theorem second_statement_is_shown : secondShown.newest = some 3 ∧ Shows willing secondShown ∧
    secondShown.resultId = 1 ∧ secondShown.state = .fetching := by
  have first : OwnStep willing overtaken (overtaken.answered (.executed 2 none none none)) :=
    ⟨_,answered_step rfl rfl (.executed 2 none),id⟩
  have step : Step willing _ (.event (.executed 3 none (some 1) none)) secondShown := answered_step rfl rfl (.result 3 none)
  have shows := grid_shows_newest_iff (overtaken_run.tail first) step
  exact ⟨rfl,shows.1.mpr (fun foreign => foreign.2 rfl) 3 rfl,rfl,rfl⟩

end Reldex.Ui
