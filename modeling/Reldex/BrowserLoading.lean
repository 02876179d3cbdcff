import Reldex.BrowserReferences

/-! Which nodes are marked as loading. The mark is set when a fetch is queued and taken away by its
answer; closing drops the active fetch and a refresh outdates every queued one without taking the
mark away. As long as neither meets a fetch of another node, a browser whose session has nothing to
answer shows no node as loading. -/
namespace Reldex.ObjectBrowser
open Relation List Option

/-- A node that is marked as loading waits for its rows, or is one of `ids`. -/
def Owed (b : Browser) (ids : List Nat) : Prop :=
  ∀ node ∈ b.nodes, node.loading = true → b.Awaits node.id ∨ node.id ∈ ids

/-- Every mark will be taken away: the queue is of the current generation, and the active fetch is
the newest of its node unless the node is queued again. -/
structure Flowing (b : Browser) : Prop where
  owed : Owed b []
  current : ∀ id ∈ b.pendingQueue, b.nodeGeneration id = b.generation
  fetched : ∀ id, b.activeNode = some id → id ∉ b.pendingQueue → b.nodeGeneration id = b.activeGeneration

/-- The session has exactly these requests to answer, and no other has any. -/
def Asked (b : Browser) (requests : List Request) : Prop :=
  b.late = [] ∧ ∃ session, b.session = some session ∧ session.outstanding = requests

structure Ready (b : Browser) : Prop where
  asked : Asked b []
  idle : b.activeNode = none
  known : b.sessionReady = true ∨ b.sessionOpenFailed = true
  prompt : b.closePending = false

structure Fetching (b : Browser) : Prop where
  asked : Asked b [.executes]
  busy : b.activeNode ≠ none
  known : b.sessionReady = true ∨ b.sessionOpenFailed = true
  prompt : b.closePending = false

structure Opening (b : Browser) : Prop where
  asked : b.session = some ⟨true,.opening,[.opens],none⟩
  late : b.late = []
  idle : b.activeNode = none
  unready : b.sessionReady = false
  unfailed : b.sessionOpenFailed = false
  emptied : b.closePending = true → b.pendingQueue = []

structure Closing (b : Browser) : Prop where
  asked : ∃ session, b.session = some session ∧ session.outstanding = [.closes] ∧ session.state = .closing
  late : b.late = []
  marked : b.sessionClosing = true
  idle : b.activeNode = none
  emptied : b.pendingQueue = []
  prompt : b.closePending = false

/-- The session was let go: if that was while it was closing, its reply is still to come. -/
structure Absent (b : Browser) : Prop where
  session : b.session = none
  late : b.late = [] ∨ b.sessionClosing = true ∧ b.late = [.closes]
  idle : b.activeNode = none
  emptied : b.pendingQueue = []
  prompt : b.closePending = false

inductive Phase (b : Browser) : Prop where
  | absent (absent : Absent b)
  | settled (ready : Ready b) (emptied : b.pendingQueue = [])
  | opening (opening : Opening b)
  | fetching (fetching : Fetching b)
  | closing (closing : Closing b)

structure Going (b : Browser) : Prop where
  flowing : Flowing b
  phase : Phase b

section
variable {b : Browser} {id : Nat} {ids : List Nat} {f : Node → Node}

theorem Owed.settle (owed : Owed b (id :: ids)) (settles : ∀ node, (f node).loading = false) :
    Owed (b.update id f) ids := by
  intro node member loading
  obtain ⟨old,there,⟨_,rfl⟩ | ⟨apart,rfl⟩⟩ := mem_update member
  · simp [settles] at loading
  · rcases owed _ there loading with awaits | owing
    · exact .inl awaits
    · exact .inr ((mem_cons.mp owing).resolve_left apart)

theorem Owed.update (owed : Owed b ids) (marks : Marks f) (keeps : ∀ node, (f node).loading = node.loading) :
    Owed (b.update id f) ids := by
  intro node member loading
  obtain ⟨old,there,⟨_,rfl⟩ | ⟨_,rfl⟩⟩ := mem_update member
  · rw [marks.id]
    exact owed old there (keeps old ▸ loading)
  · exact owed _ there loading

theorem Owed.adopt (owed : Owed b ids) (idle : ∀ child ∈ children, child.loading = false) :
    Owed (b.adopt children) ids := by
  intro node member loading
  rcases mem_append.mp member with old | new
  · exact owed node old loading
  · simp [idle node new] at loading

theorem Owed.clearChildren (owed : Owed b ids) : Owed (b.clearChildren id) ids :=
  fun node member => owed node (mem_filter.mp member).1

theorem Owed.emptied (owed : Owed b []) (idle : b.activeNode = none) :
    Owed { b with pendingQueue := [] } b.pendingQueue := by
  intro node member loading
  rcases owed node member loading with (queued | active) | none
  · exact .inr queued
  · simp [idle] at active
  · cases none

theorem Owed.released (owed : Owed b []) (active : ∀ other, b.activeNode = some other → other = id) :
    Owed b.released [id] := by
  intro node member loading
  rcases owed node member loading with (queued | same) | none
  · exact .inl (.inl queued)
  · exact .inr (by simp [active _ same])
  · cases none

theorem Owed.begun (owed : Owed b []) (idle : b.activeNode = none)
    (queue : b.pendingQueue = id :: rest) : Owed (b.begun id rest) [] := by
  intro node member loading
  rcases owed node member loading with (queued | active) | none
  · rw [queue] at queued
    rcases mem_cons.mp queued with rfl | later
    · exact .inl (.inr rfl)
    · exact .inl (.inl later)
  · simp [idle] at active
  · cases none

theorem Owed.failAll (kind : Option ErrorKind) (owed : Owed b ids)
    (current : ∀ id ∈ ids, b.nodeGeneration id = b.generation) :
    Owed (ids.foldl (Browser.failNext kind) b) [] ∧
    (ids.foldl (Browser.failNext kind) b).pendingQueue = b.pendingQueue := by
  induction ids generalizing b with
  | nil => exact ⟨owed,rfl⟩
  | cons id rest ih =>
    rw [foldl_cons,Browser.failNext,if_pos (current id (mem_cons_self ..))]
    exact ih (b := b.applyFetchError id kind) (owed.settle (b := b.touch id) fun _ => rfl)
      fun other member => current other (mem_cons_of_mem _ member)

theorem Flowing.failQueued (flowing : Flowing b) (idle : b.activeNode = none) (kind : Option ErrorKind) :
    Flowing (b.failQueued kind) ∧ (b.failQueued kind).pendingQueue = [] := by
  obtain ⟨owed,emptied⟩ := (flowing.owed.emptied idle).failAll kind flowing.current
  have still : (b.failQueued kind).activeNode = none := (Steady.failQueued kind b).2.trans idle
  have emptied : (b.failQueued kind).pendingQueue = [] := emptied
  exact ⟨⟨owed,fun id queued => by simp [emptied] at queued,fun id active => by simp [still] at active⟩,emptied⟩

theorem Flowing.failed (owed : Owed b [id]) (idle : b.activeNode = none)
    (current : ∀ id ∈ b.pendingQueue, b.nodeGeneration id = b.generation) (kind : Option ErrorKind) :
    Flowing (b.applyFetchError id kind) where
  owed := owed.settle (b := b.touch id) fun _ => rfl
  current := current
  fetched other active := absurd active (by simp [Browser.applyFetchError,Browser.update,Browser.touch,idle])

theorem Flowing.superseded (flowing : Flowing b) (active : b.activeNode = some id)
    (stale : b.nodeGeneration id ≠ b.activeGeneration) : Flowing b.released where
  owed node member loading := by
    have owed : Owed b.released [id] := flowing.owed.released (by simp [active])
    rcases owed node member loading with awaits | owing
    · exact .inl awaits
    · rw [mem_singleton.mp owing]
      refine .inl (.inl ?_)
      by_contra unqueued
      exact stale (flowing.fetched id active unqueued)
  current := flowing.current
  fetched _ none := by cases none

end

section
variable {b : Browser} {id : Nat} (o : Outcome)

def Uniform (o : Outcome) : Prop := (∀ id, o.executes id = none) ∨ ∀ id, o.executes id ≠ none

theorem startNextFetch_empty (empty : b.pendingQueue = []) (fuel : Nat) : b.startNextFetch o fuel = b := by
  cases fuel with
  | zero => rfl
  | succ fuel =>
    unfold Browser.startNextFetch
    split
    · next queue _ => simp [empty] at queue
    · rfl

theorem startNextFetch_busy (busy : b.activeNode ≠ none) (fuel : Nat) : b.startNextFetch o fuel = b := by
  cases fuel with
  | zero => rfl
  | succ fuel =>
    unfold Browser.startNextFetch
    split
    · next idle _ _ => exact absurd idle busy
    · rfl

theorem Ready.same {next : Browser} (ready : Ready b) (idle : next.activeNode = none) (steady : Steady b next) : Ready next where
  asked := by
    rw [Asked,steady.session,steady.late]
    exact ready.asked
  idle := idle
  known := by
    rw [steady.ready,steady.openFailed]
    exact ready.known
  prompt := steady.closePending.trans ready.prompt

/-- A statement was refused and the slot for `failed` has emptied the queue: the call that was refused
finds nothing more. -/
theorem Flowing.failed_again (flowing : Flowing b) (ready : Ready b) (emptied : b.pendingQueue = []) (id fuel : Nat) :
    (∀ kind, Flowing ((b.released.applyFetchError id kind).startNextFetch o fuel)) ∧
    ∀ kind, Ready ((b.released.applyFetchError id kind).startNextFetch o fuel) ∧
      ((b.released.applyFetchError id kind).startNextFetch o fuel).pendingQueue = [] := by
  have same : ∀ kind, (b.released.applyFetchError id kind).startNextFetch o fuel =
      b.released.applyFetchError id kind := fun kind =>
    startNextFetch_empty o (b := b.released.applyFetchError id kind) emptied fuel
  refine ⟨fun kind => ?_,fun kind => ?_⟩
  · rw [same]
    exact .failed (flowing.owed.released (by simp [ready.idle])) rfl flowing.current kind
  · rw [same]
    exact ⟨ready.same rfl ⟨rfl,rfl,rfl,rfl,rfl⟩,emptied⟩

/-- With nothing to answer, the session takes the next node of the queue that it can fetch, and the
nodes before it fail. -/
theorem Flowing.startNextFetch (uniform : Uniform o) (fuel : Nat) (enough : b.pendingQueue.length ≤ fuel)
    (flowing : Flowing b) (ready : Ready b) :
    Flowing (b.startNextFetch o fuel) ∧
    (Ready (b.startNextFetch o fuel) ∧ (b.startNextFetch o fuel).pendingQueue = [] ∨
      Fetching (b.startNextFetch o fuel) ∧ ∃ id, o.executes id = none) := by
  induction fuel generalizing b with
  | zero => exact ⟨flowing,.inl ⟨ready,eq_nil_of_length_eq_zero (Nat.le_zero.mp enough)⟩⟩
  | succ fuel ih =>
    unfold Browser.startNextFetch
    split
    · next id rest session idle queue current =>
      obtain ⟨late,mine,same,silent⟩ := ready.asked
      obtain rfl := some.inj (current.symm.trans same)
      have shorter : rest.length ≤ fuel := by simpa [queue] using enough
      have later : ∀ other ∈ rest, b.nodeGeneration other = b.generation := fun other member =>
        flowing.current other (by simp [queue,member])
      have owed : Owed (b.begun id rest).released [id] := (flowing.owed.begun idle queue).released (by simp [Browser.begun])
      split_ifs with dead unready stale unprepared
      · obtain ⟨failed,emptied⟩ := flowing.failQueued idle session.error
        obtain ⟨steady,still⟩ := Steady.failQueued session.error b
        exact ⟨failed,.inl ⟨ready.same (still.trans idle) steady,emptied⟩⟩
      · rcases ready.known with on | failed
        · simp [on] at unready
        · exact absurd (.inl failed) dead
      · exact absurd (flowing.current id (by simp [queue])) stale
      · exact ih shorter (.failed owed rfl later _) (ready.same rfl ⟨rfl,rfl,rfl,rfl,rfl⟩)
      · split
        · next accepted =>
          refine ⟨⟨flowing.owed.begun idle queue,later,fun other active _ => ?_⟩,.inr ⟨⟨⟨late,_,rfl,?_⟩,?_,ready.known,
            ready.prompt⟩,id,accepted⟩⟩
          · cases active
            exact not_not.mp stale
          · simp [silent]
          · simp [Browser.submitted,Browser.begun]
        · next kind refused =>
          let told := (b.begun id rest).refused (b.requestFor id) session kind
          have failed : told.failActive o id = told.released.applyFetchError id (told.correctedKind o) :=
            if_pos (not_not.mp stale)
          have rested : Ready (told.released.applyFetchError id (told.correctedKind o)) :=
            ⟨⟨late,_,rfl,silent⟩,rfl,ready.known,ready.prompt⟩
          have settled : Flowing (told.released.applyFetchError id (told.correctedKind o)) :=
            .failed (b := told.released) owed rfl later _
          rw [failed]
          obtain ⟨after,⟨quiet,emptied⟩ | ⟨_,other,accepted⟩⟩ := ih shorter settled rested
          · obtain ⟨flows,rests⟩ := after.failed_again o quiet emptied id fuel
            exact ⟨flows _,.inl (rests _)⟩
          · rcases uniform with never | always
            · simp [never] at refused
            · exact absurd accepted (always other)
    · next none =>
      refine ⟨flowing,.inl ⟨ready,?_⟩⟩
      obtain ⟨_,session,current,_⟩ := ready.asked
      cases queue : b.pendingQueue with
      | nil => rfl
      | cons id rest => exact absurd current (none id rest session ready.idle queue)

theorem Flowing.startNextFetchIfIdle (uniform : Uniform o) (flowing : Flowing b) (ready : Ready b) :
    Going (b.startNextFetchIfIdle o) := by
  obtain ⟨after,⟨quiet,emptied⟩ | ⟨fetching,_⟩⟩ :=
    flowing.startNextFetch o uniform b.pendingQueue.length (Nat.le_refl _) ready
  · exact ⟨after,.settled quiet emptied⟩
  · exact ⟨after,.fetching fetching⟩

theorem Opening.startNextFetchIfIdle (opening : Opening b) : b.startNextFetchIfIdle o = b := by
  rcases startNextFetch_unready o opening.unready b.pendingQueue.length with same | ⟨_,session,current,dead⟩
  · exact same
  · rw [opening.asked] at current
    cases current
    simp [opening.unfailed] at dead

def Browser.Unclosing (b : Browser) : Prop := b.closePending = false ∧ b.sessionClosing = false

theorem Flowing.enqueued (uniform : Uniform o) (flowing : Flowing (b.enqueue id)) (unclosing : b.Unclosing)
    (phase : Phase b) (session : b.session ≠ none) : Going ((b.enqueue id).startNextFetchIfIdle o) := by
  cases phase with
  | absent absent => exact absurd absent.session session
  | settled ready emptied => exact flowing.startNextFetchIfIdle o uniform { ready with }
  | opening opening =>
    have still : Opening (b.enqueue id) :=
      { opening with emptied := fun pending => absurd pending (by simp [Browser.enqueue,Browser.update,unclosing.1]) }
    rw [still.startNextFetchIfIdle o]
    exact ⟨flowing,.opening still⟩
  | fetching fetching =>
    have still : Fetching (b.enqueue id) := { fetching with }
    rw [Browser.startNextFetchIfIdle,startNextFetch_busy o still.busy]
    exact ⟨flowing,.fetching still⟩
  | closing closing => exact absurd closing.marked (by simp [unclosing.2])

theorem onMetadataSessionFailed_idle (idle : b.activeNode = none) : b.onMetadataSessionFailed o =
      if b.closePending then { b with sessionOpenFailed := true }.performClose o
      else { b with sessionOpenFailed := true }.startNextFetchIfIdle o := by
  rw [Browser.onMetadataSessionFailed,idle]

theorem onMetadataSessionFailed_empty (idle : b.activeNode = none) (prompt : b.closePending = false)
    (emptied : b.pendingQueue = []) : b.onMetadataSessionFailed o = { b with sessionOpenFailed := true } := by
  rw [onMetadataSessionFailed_idle o idle,if_neg (by simp [prompt])]
  exact startNextFetch_empty o (b := { b with sessionOpenFailed := true }) emptied _

theorem Absent.ensureSessionOpen (absent : Absent b) (unclosing : b.Unclosing) :
    ((b.ensureSessionOpen o).session ≠ none ∧ Phase (b.ensureSessionOpen o)) ∧
    ∃ session failed ready, b.ensureSessionOpen o =
      { b with session := session, sessionOpenFailed := failed, sessionReady := ready } := by
  have late : b.late = [] := absent.late.resolve_right fun closing => by simp [unclosing.2] at closing
  unfold Browser.ensureSessionOpen
  rw [absent.session]
  dsimp only
  split
  · exact ⟨⟨by simp,.opening ⟨rfl,late,absent.idle,rfl,rfl,fun _ => absent.emptied⟩⟩,_,_,_,rfl⟩
  · next kind refused =>
    rw [onMetadataSessionFailed_empty o (b := { b with
      session := some ⟨false,.usable,[],some kind⟩, sessionOpenFailed := false, sessionReady := false })
      absent.idle absent.prompt absent.emptied]
    exact ⟨⟨by simp,.settled ⟨⟨late,_,rfl,rfl⟩,absent.idle,.inr rfl,absent.prompt⟩ absent.emptied⟩,_,_,_,rfl⟩

theorem Flowing.fetch (uniform : Uniform o) (owed : Owed b [])
    (current : ∀ other ∈ b.pendingQueue, other ≠ id → b.nodeGeneration other = b.generation)
    (fetched : ∀ other, b.activeNode = some other → other ∉ b.pendingQueue →
      b.nodeGeneration other = b.activeGeneration)
    (unclosing : b.Unclosing) (phase : Phase b) : Going ((b.ensureSessionOpen o).queueFetch o id) := by
  have joined : ∀ other, other ∈ (b.enqueue id).pendingQueue ↔ other ∈ b.pendingQueue ∨ other = id := by
    intro other
    simp only [Browser.enqueue]
    split
    · next queued => exact ⟨.inl,fun either => either.elim (fun h => h) fun same => same ▸ queued⟩
    · simp
  have queued : Flowing (b.enqueue id) := by
    refine ⟨fun node member loading => ?_,fun other queued => ?_,fun other active unqueued => ?_⟩
    · obtain ⟨old,there,⟨same,rfl⟩ | ⟨_,rfl⟩⟩ := mem_update (b := b) member
      · exact .inl (.inl ((joined _).mpr (.inr same)))
      · rcases owed _ there loading with (queued | active) | none
        · exact .inl (.inl ((joined _).mpr (.inl queued)))
        · exact .inl (.inr active)
        · cases none
    · by_cases same : other = id
      · simp [Browser.enqueue,Browser.update,same]
      · simpa [Browser.enqueue,Browser.update,same] using
          current other (((joined other).mp queued).resolve_right same) same
    · have apart : other ≠ id := fun same => unqueued ((joined other).mpr (.inr same))
      simpa [Browser.enqueue,Browser.update,apart] using
        fetched other active fun queued => unqueued ((joined other).mpr (.inl queued))
  cases current : b.session with
  | some session =>
    have same : b.ensureSessionOpen o = b := by simp [Browser.ensureSessionOpen,current]
    rw [same,Browser.queueFetch,current]
    exact queued.enqueued o uniform unclosing phase (by simp [current])
  | none =>
    have absent : Absent b := by
      cases phase with
      | absent absent => exact absent
      | settled ready => exact absurd ready.asked (by simp [Asked,current])
      | opening opening => exact absurd opening.asked (by simp [current])
      | fetching fetching => exact absurd fetching.asked (by simp [Asked,current])
      | closing closing => exact absurd closing.marked (by simp [unclosing.2])
    obtain ⟨⟨session,phase⟩,_,_,_,same⟩ := absent.ensureSessionOpen o unclosing
    obtain ⟨made,there⟩ := ne_none_iff_exists'.mp session
    rw [Browser.queueFetch,there]
    refine Flowing.enqueued o uniform ?_ ?_ phase session
    · rw [same]
      exact { queued with }
    · rw [same]
      exact unclosing

theorem Phase.tree (phase : Phase b) (nodes : List Node) (nextNode generation : Nat) (pane : ColumnsPane) :
    Phase { b with nodes := nodes, nextNode := nextNode, generation := generation, columnsPane := pane } := by
  cases phase with
  | absent absent => exact .absent { absent with }
  | settled ready emptied => exact .settled { ready with } emptied
  | opening opening => exact .opening { opening with }
  | fetching fetching => exact .fetching { fetching with }
  | closing closing => exact .closing { closing with }

theorem Flowing.populated (flowing : Flowing b) {node : Node} (idle : ∀ child ∈ children, child.loading = false) :
    Flowing (if (b.children node.id).isEmpty then (b.adopt children).update node.id Node.populated
      else b.update node.id Node.populated) := by
  split
  · exact ⟨(flowing.owed.adopt idle).update Marks.populated fun _ => rfl,flowing.current,flowing.fetched⟩
  · exact ⟨flowing.owed.update Marks.populated fun _ => rfl,flowing.current,flowing.fetched⟩

theorem Phase.populated (phase : Phase b) (node : Node) (children : List Node) :
    Phase (if (b.children node.id).isEmpty then (b.adopt children).update node.id Node.populated
      else b.update node.id Node.populated) := by
  split
  · exact phase.tree _ _ _ _
  · exact phase.tree _ _ _ _

theorem groups_idle (node : Node) (start : Nat) :
    ∀ child ∈ groups.zipIdx.map (fun group => node.groupChild (start + group.2) group.1), child.loading = false := by
  intro child member
  obtain ⟨group,_,rfl⟩ := mem_map.mp member
  rfl

theorem columns_idle (node : Node) (id : Nat) : ∀ child ∈ [node.columnsChild id], child.loading = false := by
  intro child member
  rw [mem_singleton.mp member]
  rfl

section
variable (uniform : Uniform o)
include uniform

/-- The second half of an expand. A node that is refreshed while it is queued has a place in the
queue that is out of date until it is queued again. -/
theorem Flowing.load (owed : Owed b [])
    (current : ∀ other ∈ b.pendingQueue, (node.fetches = true → other ≠ node.id) →
      b.nodeGeneration other = b.generation)
    (fetched : ∀ other, b.activeNode = some other → other ∉ b.pendingQueue →
      b.nodeGeneration other = b.activeGeneration)
    (unclosing : b.Unclosing) (phase : Phase b) : Going (b.load o node) := by
  unfold Browser.load
  cases is : node.kind with
  | connection | group | columnsNode =>
    exact Flowing.fetch o uniform owed (fun other queued apart => current other queued fun _ => apart) fetched
      unclosing phase
  | schema =>
    have flowing : Flowing b := ⟨owed,fun other queued => current other queued (by simp [Node.fetches,is]),fetched⟩
    exact ⟨flowing.populated (groups_idle node _),phase.populated node _⟩
  | object =>
    have flowing : Flowing b := ⟨owed,fun other queued => current other queued (by simp [Node.fetches,is]),fetched⟩
    dsimp only
    split
    · exact ⟨flowing.populated (columns_idle node _),phase.populated node _⟩
    · exact ⟨flowing,phase⟩
  | column =>
    exact ⟨⟨owed,fun other queued => current other queued (by simp [Node.fetches,is]),fetched⟩,phase⟩

theorem Flowing.expand_plain (flowing : Flowing b) (phase : Phase b)
    (unclosing : b.Unclosing) (id : Nat) : Going (b.expand o id false) := by
  unfold Browser.expand
  split
  · exact ⟨flowing,phase⟩
  · next node found =>
    split
    · exact ⟨flowing,phase⟩
    · split
      · next forced => cases forced
      · split
        · exact ⟨flowing,phase⟩
        · exact Flowing.load o uniform flowing.owed (fun other queued _ => flowing.current other queued)
            flowing.fetched unclosing phase

section
variable (sound : Sound b) (flowing : Flowing b) (phase : Phase b) (unclosing : b.Unclosing)
include sound flowing phase unclosing

theorem Flowing.expand_forced (alone : ∀ other ∈ b.pendingQueue, other = id) : Going (b.expand o id true) := by
  unfold Browser.expand
  split
  · exact ⟨flowing,phase⟩
  · next node found =>
    obtain ⟨member,rfl⟩ := find_spec found
    split
    · exact ⟨flowing,phase⟩
    · have owed : Owed (b.refresh node.id) [] := flowing.owed.clearChildren.update Marks.refreshed fun _ => rfl
      refine Flowing.load o uniform owed (fun other queued apart => ?_) flowing.fetched unclosing (phase.tree _ _ _ _)
      have awaits : b.Awaits node.id := .inl (alone other queued ▸ queued)
      exact absurd (alone other queued) (apart (sound.awaits node member awaits).1)

theorem Flowing.setFilter (text : String)
    (alone : b.refreshedBy (.setFilter id text) = some id → ∀ other ∈ b.pendingQueue, other = id) :
    Going (b.setFilter o id text) := by
  unfold Browser.setFilter
  split
  · exact ⟨flowing,phase⟩
  · next node found =>
    split
    · exact ⟨flowing,phase⟩
    · next kinds =>
      split
      · exact ⟨flowing,phase⟩
      · next changed =>
        have alone := alone (by
          simp only [Browser.refreshedBy,found]
          cases is : node.kind <;> simp_all)
        have marked : Flowing (b.update id (Node.filtered text)) :=
          ⟨flowing.owed.update (Marks.filtered text) fun _ => rfl,flowing.current,flowing.fetched⟩
        exact marked.expand_forced o uniform (sound.filtered text) (phase.tree _ _ _ _) unclosing alone

end

variable (flowing : Flowing b) (phase : Phase b) (unclosing : b.Unclosing)
include flowing phase unclosing

theorem Flowing.showColumns (columns : Node) : Going (b.showColumns o columns) := by
  have shown : ∀ pane, Flowing { b with columnsPane := pane } := fun pane =>
    ⟨flowing.owed,flowing.current,flowing.fetched⟩
  unfold Browser.showColumns
  split
  · exact ⟨shown _,phase.tree _ _ _ _⟩
  · exact Flowing.expand_plain o uniform (b := (b.showPane columns (b.paneTitle columns)).awaitPane) (shown _)
      (phase.tree _ _ _ _) unclosing columns.id

theorem Flowing.activate : Going (b.activate o id) := by
  unfold Browser.activate
  split
  · exact ⟨flowing,phase⟩
  · next node found =>
    split
    · exact flowing.showColumns o uniform phase unclosing node
    · split
      · have ready : Going (if node.childrenLoaded then b else b.populateStaticColumnsNode node) ∧
            (if node.childrenLoaded then b else b.populateStaticColumnsNode node).Unclosing := by
          split
          · exact ⟨⟨flowing,phase⟩,unclosing⟩
          · refine ⟨⟨flowing.populated (columns_idle node _),phase.populated node _⟩,?_⟩
            unfold Browser.populateStaticColumnsNode
            split
            · exact unclosing
            · exact unclosing
        obtain ⟨⟨flows,phases⟩,still⟩ := ready
        dsimp only
        split
        · next columns _ => exact flows.showColumns o uniform phases still columns
        · exact ⟨flows,phases⟩
      · exact ⟨flowing,phase⟩

end

theorem Owed.idleAll (owed : Owed b ids) : Owed (ids.foldl (fun b id => b.update id Node.idle) b) [] ∧
    (ids.foldl (fun b id => b.update id Node.idle) b).pendingQueue = b.pendingQueue := by
  induction ids generalizing b with
  | nil => exact ⟨owed,rfl⟩
  | cons id rest ih => exact ih (b := b.update id Node.idle) (owed.settle fun _ => rfl)

theorem Flowing.dropFetches (flowing : Flowing b) (idle : b.activeNode = none) :
    Flowing b.dropFetches ∧ b.dropFetches.pendingQueue = [] ∧ b.dropFetches.activeNode = none := by
  let emptied := { b.released with generation := b.generation + 1, pendingQueue := [] }
  have dropped : Owed emptied b.pendingQueue := by
    intro node member loading
    exact (flowing.owed.emptied idle node member loading).imp_left fun awaits => awaits.imp_right (by simp [idle])
  obtain ⟨owed,queue⟩ := dropped.idleAll
  have queue : b.dropFetches.pendingQueue = [] := queue
  have active : b.dropFetches.activeNode = none := by
    obtain ⟨nodes,same⟩ := dropFetches_nodes b
    rw [same]
    rfl
  exact ⟨⟨owed,fun id queued => by simp [queue] at queued,fun id now => by simp [active] at now⟩,queue,active⟩

theorem Flowing.performClose (flowing : Flowing b) : Flowing (b.performClose o) := by
  unfold Browser.performClose
  split
  · exact flowing
  · split
    · exact ⟨flowing.owed,flowing.current,flowing.fetched⟩
    · exact ⟨flowing.owed,flowing.current,flowing.fetched⟩

theorem Phase.performClose (asked : Asked b []) (idle : b.activeNode = none)
    (known : b.sessionReady = true ∨ b.sessionOpenFailed = true) (emptied : b.pendingQueue = []) :
    Phase (b.performClose o) := by
  obtain ⟨late,session,current,silent⟩ := asked
  simp only [Browser.performClose,current]
  split
  · exact .absent ⟨rfl,.inl (by simp [Browser.letGo,late,silent]),idle,emptied,rfl⟩
  · cases accepted : o.closes with
    | true => exact .closing ⟨⟨_,rfl,by simp [silent],rfl⟩,late,rfl,idle,emptied,rfl⟩
    | false => exact .settled ⟨⟨late,_,rfl,silent⟩,idle,known,rfl⟩ emptied

theorem Flowing.closeConnection (flowing : Flowing b) (phase : Phase b) (idle : b.activeNode = none) :
    Going (b.closeConnection o) := by
  obtain ⟨dropped,queue,still⟩ := flowing.dropFetches idle
  have same : Steady b b.dropFetches ∧ b.dropFetches.sessionClosing = b.sessionClosing := by
    obtain ⟨nodes,same⟩ := dropFetches_nodes b
    rw [same]
    exact ⟨⟨rfl,rfl,rfl,rfl,rfl⟩,rfl⟩
  obtain ⟨⟨there,late,ready,failed,pending⟩,marked⟩ := same
  have without (session : Session) : Flowing (b.dropFetches.letGo session) := ⟨dropped.owed,dropped.current,dropped.fetched⟩
  cases phase with
  | absent absent =>
    rw [Browser.closeConnection,absent.session]
    exact ⟨flowing,.absent absent⟩
  | settled calm _ =>
    obtain ⟨none,session,current,silent⟩ := calm.asked
    simp only [Browser.closeConnection,current]
    split
    · exact ⟨without session,.absent ⟨rfl,.inl (by simp [Browser.letGo,late,none,silent]),still,queue,pending.trans calm.prompt⟩⟩
    · rw [if_neg fun unknown => absurd calm.known (by simp [unknown.1,unknown.2])]
      refine ⟨dropped.performClose o,Phase.performClose o ⟨late.trans none,session,there.trans current,silent⟩ still ?_ queue⟩
      rw [ready,failed]
      exact calm.known
  | opening opening =>
    simp only [Browser.closeConnection,opening.asked,opening.unready,opening.unfailed]
    refine ⟨⟨dropped.owed,dropped.current,dropped.fetched⟩,.opening ⟨there.trans opening.asked,
      late.trans opening.late,still,?_,?_,fun _ => queue⟩⟩
    · exact ready.trans opening.unready
    · exact failed.trans opening.unfailed
  | fetching fetching => exact absurd idle fetching.busy
  | closing closing =>
    obtain ⟨session,current,asked,ending⟩ := closing.asked
    simp only [Browser.closeConnection,current]
    rw [if_pos (.inr (.inr ending))]
    refine ⟨without session,.absent ⟨rfl,.inr ⟨marked.trans closing.marked,?_⟩,still,queue,pending.trans closing.prompt⟩⟩
    simp [Browser.letGo,late,closing.late,asked]

theorem rowChild_loading (node : Node) (id : Nat) (values : List String) :
    (node.rowChild id values).loading = false := by
  unfold Node.rowChild
  split <;> rfl

theorem Flowing.applyRows (owed : Owed b [id]) (idle : b.activeNode = none)
    (current : ∀ id ∈ b.pendingQueue, b.nodeGeneration id = b.generation) (rows : List (List String))
    (truncated : Bool) : Flowing (b.applyRows id rows truncated) := by
  unfold Browser.applyRows
  split
  · next absent =>
    refine ⟨fun node member loading => ?_,current,fun other active => absurd active (by simp [Browser.touch,idle])⟩
    refine .inl ((owed node member loading).resolve_right fun same => ?_)
    have none := find?_eq_none.mp absent node member
    simp [mem_singleton.mp same] at none
  · next node found =>
    obtain ⟨_,rfl⟩ := find_spec found
    have fresh : ∀ child ∈ (b.touch node.id).rowChildren node rows, child.loading = false := by
      intro child member
      obtain ⟨row,_,rfl⟩ := mem_map.mp member
      exact rowChild_loading ..
    have filled : Owed ((b.touch node.id).fill node rows truncated) [] :=
      ((Owed.clearChildren (b := b.touch node.id) owed).adopt fresh).settle fun _ => rfl
    split
    · exact ⟨filled,current,fun other active => absurd (active.symm.trans idle) (by simp)⟩
    · exact ⟨filled,current,fun other active => absurd (active.symm.trans idle) (by simp)⟩

theorem Flowing.completeActive (flowing : Flowing b) (active : b.activeNode = some id) (rows : List (List String)) :
    Flowing (b.completeActive id rows) := by
  unfold Browser.completeActive
  split
  · have owed : Owed b.released [id] := flowing.owed.released (by simp [active])
    split
    · exact .applyRows owed rfl flowing.current _ _
    · exact .applyRows owed rfl flowing.current _ _
  · next stale => exact flowing.superseded active stale

theorem Flowing.failActive (flowing : Flowing b) (active : b.activeNode = some id) : Flowing (b.failActive o id) := by
  unfold Browser.failActive
  split
  · exact .failed (flowing.owed.released (by simp [active])) rfl flowing.current _
  · next stale => exact flowing.superseded active stale

theorem completeActive_steady (id : Nat) (rows : List (List String)) :
    Steady b (b.completeActive id rows) ∧ (b.completeActive id rows).activeNode = none := by
  have applied : ∀ rows truncated, Steady b (b.released.applyRows id rows truncated) ∧
      (b.released.applyRows id rows truncated).activeNode = none := by
    intro rows truncated
    unfold Browser.applyRows
    split
    · exact ⟨⟨rfl,rfl,rfl,rfl,rfl⟩,rfl⟩
    · split <;> exact ⟨⟨rfl,rfl,rfl,rfl,rfl⟩,rfl⟩
  unfold Browser.completeActive
  split
  · split
    · exact applied _ _
    · exact applied _ _
  · exact ⟨⟨rfl,rfl,rfl,rfl,rfl⟩,rfl⟩

def Answering (b : Browser) : Request → Prop
  | .opens => Opening b
  | .executes => Fetching b
  | .closes => Closing b

theorem Phase.answering (phase : Phase b) (current : b.session = some session)
    (outstanding : request ∈ session.outstanding) : Answering b request := by
  cases phase with
  | absent absent => simp [absent.session] at current
  | settled ready _ =>
    obtain ⟨_,same,there,silent⟩ := ready.asked
    obtain rfl := some.inj (current.symm.trans there)
    simp [silent] at outstanding
  | opening opening =>
    obtain rfl := some.inj (current.symm.trans opening.asked)
    cases mem_singleton.mp outstanding
    exact opening
  | fetching fetching =>
    obtain ⟨_,same,there,asked⟩ := fetching.asked
    obtain rfl := some.inj (current.symm.trans there)
    rw [asked] at outstanding
    cases mem_singleton.mp outstanding
    exact fetching
  | closing closing =>
    obtain ⟨same,there,asked,_⟩ := closing.asked
    obtain rfl := some.inj (current.symm.trans there)
    rw [asked] at outstanding
    cases mem_singleton.mp outstanding
    exact closing

theorem Fetching.silent (fetching : Fetching b) (current : b.session = some session)
    (reply : Reply) (answers : reply.request = .executes) : b.late = [] ∧ (session.answered reply).outstanding = [] := by
  obtain ⟨late,same,there,asked⟩ := fetching.asked
  obtain rfl := some.inj (current.symm.trans there)
  exact ⟨late,by simp [Session.answered,asked,answers]⟩

variable (uniform : Uniform o) (flowing : Flowing b)
include uniform flowing

section
variable (asked : Asked b []) (idle : b.activeNode = none)
include asked idle

/-- The session opens, or fails to; a close that was put off meanwhile is done now. -/
theorem Flowing.opened (known : b.sessionReady = true ∨ b.sessionOpenFailed = true)
    (emptied : b.closePending = true → b.pendingQueue = []) :
    Going (if b.closePending then b.performClose o else b.startNextFetchIfIdle o) := by
  split
  · next pending => exact ⟨flowing.performClose o,.performClose o asked idle known (emptied pending)⟩
  · next prompt =>
    exact flowing.startNextFetchIfIdle o uniform ⟨asked,idle,known,by simpa using prompt⟩

theorem Flowing.openFailed (emptied : b.closePending = true → b.pendingQueue = []) :
    Going (b.onMetadataSessionFailed o) := by
  rw [onMetadataSessionFailed_idle o idle]
  exact Flowing.opened o uniform (b := { b with sessionOpenFailed := true })
    ⟨flowing.owed,flowing.current,flowing.fetched⟩ asked idle (.inr rfl) emptied

end

section
variable (asked : Asked b []) (active : b.activeNode = some id)
include asked active

variable (known : b.sessionReady = true ∨ b.sessionOpenFailed = true) (prompt : b.closePending = false)
include known prompt

theorem Flowing.fetchFailed : Going (b.onMetadataSessionFailed o) := by
  obtain ⟨steady,idle⟩ := Steady.failActive o id b
  rw [Browser.onMetadataSessionFailed,active]
  refine (flowing.failActive o active).startNextFetchIfIdle o uniform ⟨?_,idle,?_,steady.closePending.trans prompt⟩
  · rwa [Asked,steady.session,steady.late]
  · rwa [steady.ready,steady.openFailed]

theorem Flowing.fetchCompleted (rows : List (List String)) : Going (b.onMetadataResultComplete o rows) := by
  obtain ⟨steady,idle⟩ := completeActive_steady (b := b) id rows
  rw [Browser.onMetadataResultComplete,active]
  refine (flowing.completeActive active rows).startNextFetchIfIdle o uniform
    ⟨?_,idle,?_,steady.closePending.trans prompt⟩
  · rwa [Asked,steady.session,steady.late]
  · rwa [steady.ready,steady.openFailed]

end

theorem Flowing.deliver (phase : Phase b)
    (current : b.session = some session) {reply : Reply} (outstanding : reply.request ∈ session.outstanding) :
    Going (reply.deliver o b session) := by
  have answering := phase.answering current outstanding
  have heard : ∀ told ready, Flowing { b with session := told, sessionReady := ready } := fun _ _ =>
    ⟨flowing.owed,flowing.current,flowing.fetched⟩
  cases reply with
  | opened =>
    have opening : Opening b := answering
    obtain rfl := some.inj (current.symm.trans opening.asked)
    exact Flowing.opened o uniform (heard _ true) ⟨opening.late,_,rfl,rfl⟩ opening.idle (.inl rfl) opening.emptied
  | openFailed kind =>
    have opening : Opening b := answering
    obtain rfl := some.inj (current.symm.trans opening.asked)
    exact Flowing.openFailed o uniform (heard _ _) ⟨opening.late,_,rfl,rfl⟩ opening.idle opening.emptied
  | executeFailed kind =>
    have fetching : Fetching b := answering
    obtain ⟨id,active⟩ := ne_none_iff_exists'.mp fetching.busy
    obtain ⟨late,silent⟩ := fetching.silent current (.executeFailed kind) rfl
    exact Flowing.fetchFailed o uniform (heard _ _) ⟨late,_,rfl,silent⟩ active fetching.known fetching.prompt
  | resultComplete rows =>
    have fetching : Fetching b := answering
    obtain ⟨id,active⟩ := ne_none_iff_exists'.mp fetching.busy
    obtain ⟨late,silent⟩ := fetching.silent current (.resultComplete rows) rfl
    exact Flowing.fetchCompleted o uniform (heard (some _) _) ⟨late,_,rfl,silent⟩ active fetching.known fetching.prompt rows
  | sessionClosed stillOpen =>
    have closing : Closing b := answering
    obtain ⟨same,there,asked,_⟩ := closing.asked
    obtain rfl := some.inj (current.symm.trans there)
    refine ⟨⟨flowing.owed,flowing.current,flowing.fetched⟩,.absent ⟨rfl,.inl ?_,closing.idle,closing.emptied,closing.prompt⟩⟩
    change b.late ++ (session.answered (.sessionClosed stillOpen)).outstanding = []
    simp [closing.late,Session.answered,asked,Reply.request]

omit uniform in
/-- Only the close of a session that was let go is answered late, and meanwhile there is no other. -/
theorem Flowing.late (phase : Phase b) {reply : Reply} (unheard : reply.request ∈ b.late) :
    Going (reply.signal o { b with late := b.late.erase reply.request }) := by
  cases phase with
  | absent absent =>
    obtain none | ⟨_,closes⟩ := absent.late
    · simp [none] at unheard
    · rw [closes] at unheard ⊢
      cases reply with
      | sessionClosed stillOpen =>
        simp only [Reply.signal,Browser.onMetadataSessionClosed,absent.session]
        exact ⟨⟨flowing.owed,flowing.current,flowing.fetched⟩,.absent { absent with session := rfl, late := .inl rfl }⟩
      | _ => cases mem_singleton.mp unheard
  | settled ready => simp [ready.asked.1] at unheard
  | fetching fetching => simp [fetching.asked.1] at unheard
  | opening opening => simp [opening.late] at unheard
  | closing closing => simp [closing.late] at unheard

end

/-- Nothing is closed while a fetch is active, nothing is expanded or filtered while a close is under
way, and a node is only refreshed while no other is queued. -/
def Careful (b : Browser) : Move → Prop
  | .call .closeConnection => b.activeNode = none
  | .call call => b.Unclosing ∧ ∀ id, b.refreshedBy call = some id → ∀ other ∈ b.pendingQueue, other = id
  | .reply _ | .late _ => True

/-- A careful step, in which no node goes that is referred to and the session refuses all statements
or none. -/
def CarefulStep (b next : Browser) : Prop :=
  ∃ o move, Step o b move next ∧ Gentle b move ∧ Careful b move ∧ Uniform o

theorem CarefulStep.gentle {next : Browser} (step : CarefulStep b next) : GentleStep b next := by
  obtain ⟨o,move,taken,gentle,_⟩ := step
  exact ⟨o,move,taken,gentle⟩

theorem Flowing.step {next : Browser} (sound : Sound b) (flowing : Flowing b) (phase : Phase b)
    (step : CarefulStep b next) : Going next := by
  obtain ⟨o,move,step,_,careful,uniform⟩ := step
  cases step with
  | call call =>
    cases call with
    | expand id force =>
      cases force with
      | false => exact flowing.expand_plain o uniform phase careful.1 id
      | true => exact flowing.expand_forced o uniform sound phase careful.1 (careful.2 id rfl)
    | setFilter id text => exact flowing.setFilter o uniform sound phase careful.1 text (careful.2 id)
    | activate id => exact flowing.activate o uniform phase careful.1
    | closeConnection => exact flowing.closeConnection o phase careful
  | reply current outstanding => exact flowing.deliver o uniform phase current outstanding
  | late unheard => exact flowing.late o phase unheard

theorem start_flowing (rowCap : Nat) : Going (.start rowCap) := by
  refine ⟨⟨?_,?_,?_⟩,.absent ⟨rfl,.inl rfl,rfl,rfl,rfl⟩⟩ <;> simp [Owed,Browser.start]

theorem careful_run (run : ReflTransGen CarefulStep (.start rowCap) b) : Sound b ∧ Going b := by
  induction run with
  | refl => exact ⟨start_sound rowCap,start_flowing rowCap⟩
  | tail _ step ih =>
    obtain ⟨sound,flowing,phase⟩ := ih
    exact ⟨sound.step step.gentle,flowing.step sound phase step⟩

theorem Phase.unawaited (phase : Phase b)
    (silent : ∀ session, b.session = some session → session.outstanding = []) (id : Nat) : ¬b.Awaits id := by
  cases phase with
  | absent absent => simp [Browser.Awaits,absent.emptied,absent.idle]
  | settled ready emptied => simp [Browser.Awaits,emptied,ready.idle]
  | opening opening => exact absurd (silent _ opening.asked) (by simp)
  | fetching fetching =>
    obtain ⟨_,session,current,asked⟩ := fetching.asked
    exact absurd (silent session current) (by simp [asked])
  | closing closing =>
    obtain ⟨session,current,asked,_⟩ := closing.asked
    exact absurd (silent session current) (by simp [asked])

theorem willing_uniform : Uniform willing := .inl fun _ => rfl

theorem careful_expand (id : Nat) (unclosing : b.Unclosing) : CarefulStep b (b.calls (.expand id false)) :=
  ⟨willing,_,.call _,by simp [Gentle,Browser.refreshedBy],⟨unclosing,by simp [Browser.refreshedBy]⟩,willing_uniform⟩

theorem careful_refresh {id : Nat} (unclosing : b.Unclosing) (unreferred : b.Unreferred id)
    (alone : ∀ other ∈ b.pendingQueue, other = id) : CarefulStep b (b.calls (.expand id true)) := by
  refine ⟨willing,_,.call _,fun other same => ?_,⟨unclosing,fun other same => ?_⟩,willing_uniform⟩
  · cases same
    exact unreferred
  · cases same
    exact alone

theorem careful_reply (reply : Reply) (current : b.session = some session)
    (outstanding : reply.request ∈ session.outstanding) : CarefulStep b (b.hears reply) :=
  ⟨willing,_,hears_step reply current outstanding,trivial,trivial,willing_uniform⟩

def refreshingTables : Browser := (fetchingTables.hears (.resultComplete [["EMP"]])).calls (.expand 2 true)

def LeftLoading (b : Browser) (id : Nat) : Prop :=
  (∀ session, b.session = some session → session.outstanding = []) ∧ ∃ node ∈ b.nodes, node.id = id ∧ node.loading = true

def closedWhileFetching : Browser :=
  ((fetchingTables.calls .closeConnection).hears (.resultComplete [["EMP"]])).hears (.sessionClosed false)

def refreshedBesideQueued : Browser :=
  (((fetchingTables.calls (.expand 3 false)).calls (.expand 4 true)).hears (.resultComplete [["EMP"]])).hears
    (.resultComplete [])

def expandedWhileClosing : Browser :=
  (((((Browser.start 500).calls (.expand 0 false)).calls .closeConnection).calls (.expand 0 false)).hears
    .opened).hears (.sessionClosed false)

theorem any_call (call : Call) (b : Browser) : AnyStep b (b.calls call) := ⟨willing,_,.call call⟩

theorem any_reply (reply : Reply) (current : b.session = some session)
    (outstanding : reply.request ∈ session.outstanding) : AnyStep b (b.hears reply) :=
  ⟨willing,_,hears_step reply current outstanding⟩

end Reldex.ObjectBrowser
