import Reldex.ObjectBrowser

/-! Which nodes the browser still refers to. A refresh takes a subtree away without looking whether
one of its nodes is queued, fetched or shown in the columns pane; as long as none is, every
reference stays in the tree, and rows and errors are written to its nodes only. -/
namespace Reldex.ObjectBrowser
open List Nat Function

namespace Browser

def Refers (b : Browser) (id : Nat) : Prop :=
  id ∈ b.pendingQueue ∨ b.activeNode = some id ∨ b.columnsPane.node = some id

def Awaits (b : Browser) (id : Nat) : Prop := id ∈ b.pendingQueue ∨ b.activeNode = some id

def Current (b : Browser) (id : Nat) : Prop := id ∈ b.pendingQueue ∧ b.nodeGeneration id = b.generation

def Due (b : Browser) (id : Nat) : Prop := b.activeNode = some id ∨ b.Current id

theorem Due.awaits {b : Browser} {id : Nat} (due : b.Due id) : b.Awaits id := due.symm.imp_left And.left

end Browser

structure Sound (b : Browser) : Prop where
  distinct : (b.nodes.map Node.id).Nodup
  older : ∀ node ∈ b.nodes, node.id < b.nextNode ∧ ∀ parent ∈ node.parents, parent < node.id
  queue : b.pendingQueue.Nodup
  refers : ∀ id, b.Refers id → b.has id = true
  awaits : ∀ node ∈ b.nodes, b.Awaits node.id → node.fetches = true ∧ node.childrenLoaded = false
  loads : ∀ node ∈ b.nodes, b.Due node.id → node.loading = true
  loaded : ∀ node ∈ b.nodes, ∀ other ∈ b.nodes, node.id ∈ other.parents → node.childrenLoaded = true
  behind : ∀ id, b.activeNode = some id → id ∈ b.pendingQueue → b.nodeGeneration id ≠ b.activeGeneration
  past : b.activeGeneration ≤ b.generation
  dated : ∀ id, b.nodeGeneration id ≤ b.generation
  applied : ∀ entry ∈ b.applied, entry.2 = true

structure Spare (b : Browser) (id : Nat) : Prop where
  present : b.has id = true
  undue : ¬b.Due id
  unloaded : ∀ node ∈ b.nodes, node.id = id → node.childrenLoaded = false

structure Quiet (b next : Browser) : Prop where
  ids : next.nodes.map Node.id = b.nodes.map Node.id
  pane : next.columnsPane.node = b.columnsPane.node
  current : ∀ id, next.Current id → b.Current id
  active : ∀ id, next.activeNode = some id → b.Due id
  unloaded : ∀ id, (∀ node ∈ b.nodes, node.id = id → node.childrenLoaded = false) →
    ∀ node ∈ next.nodes, node.id = id → node.childrenLoaded = false
  kinds : ∀ id, (∀ node ∈ b.nodes, node.id = id → node.fetches = true) →
    ∀ node ∈ next.nodes, node.id = id → node.fetches = true

namespace Quiet

theorem refl (b : Browser) : Quiet b b :=
  ⟨rfl,rfl,fun _ current => current,fun _ => .inl,fun _ facts => facts,fun _ facts => facts⟩

theorem due {id : Nat} {next : Browser} (quiet : Quiet b next) (due : next.Due id) : b.Due id :=
  due.elim (quiet.active id) (.inr ∘ quiet.current id)

theorem trans (first : Quiet a b) (second : Quiet b c) : Quiet a c where
  ids := second.ids.trans first.ids
  pane := second.pane.trans first.pane
  current id current := first.current id (second.current id current)
  active id active := first.due (second.active id active)
  unloaded id facts := second.unloaded id (first.unloaded id facts)
  kinds id facts := second.kinds id (first.kinds id facts)

end Quiet

section
variable {b : Browser} {id : Nat}

theorem has_iff : b.has id = true ↔ ∃ node ∈ b.nodes, node.id = id := by simp [Browser.has]

theorem has_of_ids {next : Browser} (ids : next.nodes.map Node.id = b.nodes.map Node.id) (id : Nat) :
    next.has id = b.has id := by
  have same : ∀ c : Browser, c.has id = (c.nodes.map Node.id).any (· == id) := fun c => by
    simp [Browser.has,any_map,comp_def]
  rw [same,same,ids]

theorem Quiet.spare {next : Browser} (quiet : Quiet b next) (spare : Spare b id) : Spare next id :=
  ⟨(has_of_ids quiet.ids id).trans spare.present,fun due => spare.undue (quiet.due due),quiet.unloaded id spare.unloaded⟩

theorem find_spec (found : b.find id = some node) : node ∈ b.nodes ∧ node.id = id := by
  unfold Browser.find at found
  exact ⟨mem_of_find?_eq_some found,by simpa using find?_some found⟩

theorem Sound.unique (sound : Sound b) (member : node ∈ b.nodes) (also : other ∈ b.nodes)
    (same : node.id = other.id) : node = other := inj_on_of_nodup_map sound.distinct member also same

theorem Sound.childless (sound : Sound b) (member : node ∈ b.nodes)
    (unloaded : node.childrenLoaded = false) : ∀ other ∈ b.nodes, node.id ∉ other.parents := by
  intro other also under
  simp [sound.loaded node member other also under] at unloaded

theorem Sound.released (sound : Sound b) : Sound b.released :=
  { sound with
    refers := by
      rintro id (queued | active | shown)
      · exact sound.refers id (.inl queued)
      · cases active
      · exact sound.refers id (.inr (.inr shown))
    awaits := fun node member awaits => sound.awaits node member (awaits.imp_right nofun)
    loads := fun node member due => sound.loads node member (due.imp_left nofun)
    behind := fun id active => by cases active }

theorem Quiet.same {next : Browser} (nodes : next.nodes = b.nodes) (pane : next.columnsPane.node = b.columnsPane.node)
    (current : ∀ id, next.Current id → b.Current id) (active : ∀ id, next.activeNode = some id → b.Due id) : Quiet b next :=
  ⟨by rw [nodes],pane,current,active,by simp [nodes],by simp [nodes]⟩

theorem Quiet.released : Quiet b b.released := .same rfl rfl (fun _ current => current) nofun

structure Marks (f : Node → Node) : Prop where
  id : ∀ node, (f node).id = node.id
  parents : ∀ node, (f node).parents = node.parents
  kind : ∀ node, (f node).kind = node.kind

theorem Marks.fetches (marks : Marks f) (node : Node) : (f node).fetches = node.fetches := by
  simp [Node.fetches,marks.kind]

variable (kind : Option ErrorKind)

theorem Marks.failed : Marks (Node.failed kind) := ⟨fun _ => rfl,fun _ => rfl,fun _ => rfl⟩

theorem Marks.waiting : Marks Node.waiting := ⟨fun _ => rfl,fun _ => rfl,fun _ => rfl⟩

theorem Marks.idle : Marks Node.idle := ⟨fun _ => rfl,fun _ => rfl,fun _ => rfl⟩

theorem Marks.refreshed : Marks Node.refreshed := ⟨fun _ => rfl,fun _ => rfl,fun _ => rfl⟩

theorem Marks.filled (truncated : Bool) (shown : Nat) : Marks (Node.filled truncated shown) :=
  ⟨fun _ => rfl,fun _ => rfl,fun _ => rfl⟩

theorem Marks.populated : Marks Node.populated := ⟨fun _ => rfl,fun _ => rfl,fun _ => rfl⟩

theorem Marks.filtered (text : String) : Marks (Node.filtered text) := ⟨fun _ => rfl,fun _ => rfl,fun _ => rfl⟩

variable {f : Node → Node}

theorem mem_update (member : node ∈ (b.update id f).nodes) :
    ∃ old ∈ b.nodes, (old.id = id ∧ node = f old) ∨ (old.id ≠ id ∧ node = old) := by
  obtain ⟨old,also,rfl⟩ := mem_map.mp member
  by_cases same : old.id = id
  · exact ⟨old,also,.inl ⟨same,if_pos same⟩⟩
  · exact ⟨old,also,.inr ⟨same,if_neg same⟩⟩

theorem Marks.ids (marks : Marks f) (b : Browser) (id : Nat) :
    (b.update id f).nodes.map Node.id = b.nodes.map Node.id := by
  simp only [Browser.update,map_map]
  refine map_congr_left fun node _ => ?_
  simp only [comp]
  split <;> simp [marks.id]

theorem Marks.place (marks : Marks f) (member : node ∈ (b.update id f).nodes) :
    ∃ old ∈ b.nodes, node.id = old.id ∧ node.parents = old.parents := by
  obtain ⟨old,also,⟨_,rfl⟩ | ⟨_,rfl⟩⟩ := mem_update member
  · exact ⟨old,also,marks.id old,marks.parents old⟩
  · exact ⟨_,also,rfl,rfl⟩

/-- New marks on a node: if it waits for rows it still says so, and if something is under it, it is
still loaded. -/
theorem Sound.update (sound : Sound b) (marks : Marks f)
    (waits : ∀ node ∈ b.nodes, node.id = id → b.Awaits id → (f node).childrenLoaded = false)
    (loads : ∀ node ∈ b.nodes, node.id = id → b.Due id → (f node).loading = true)
    (holds : ∀ node ∈ b.nodes, node.id = id → (∃ other ∈ b.nodes, id ∈ other.parents) →
      (f node).childrenLoaded = true) : Sound (b.update id f) := by
  refine ⟨marks.ids b id ▸ sound.distinct,fun node member => ?_,sound.queue,fun other refers => ?_,
    fun node member awaits => ?_,fun node member due => ?_,fun node member other also under => ?_,sound.behind,sound.past,
    sound.dated,sound.applied⟩
  · obtain ⟨old,there,same,parents⟩ := marks.place member
    rw [same,parents]
    exact sound.older old there
  · rw [has_of_ids (marks.ids b id) other]
    exact sound.refers other refers
  · obtain ⟨old,there,⟨same,rfl⟩ | ⟨_,rfl⟩⟩ := mem_update member
    · rw [marks.id] at awaits
      exact ⟨(marks.fetches old).trans (sound.awaits old there awaits).1,waits old there same (same ▸ awaits)⟩
    · exact sound.awaits _ there awaits
  · obtain ⟨old,there,⟨same,rfl⟩ | ⟨_,rfl⟩⟩ := mem_update member
    · rw [marks.id] at due
      exact loads old there same (same ▸ due)
    · exact sound.loads _ there due
  · obtain ⟨lower,there',_,parents⟩ := marks.place also
    rw [parents] at under
    obtain ⟨old,there,⟨same,rfl⟩ | ⟨_,rfl⟩⟩ := mem_update member
    · rw [marks.id,same] at under
      exact holds old there same ⟨lower,there',under⟩
    · exact sound.loaded _ there lower there' under

theorem Quiet.applyFetchError : Quiet b (b.applyFetchError id kind) := by
  have ids : (b.applyFetchError id kind).nodes.map Node.id = b.nodes.map Node.id :=
    (Marks.failed kind).ids (b.touch id) id
  have back : ∀ {node}, node ∈ (b.applyFetchError id kind).nodes → ∃ old ∈ b.nodes,
      (old.id = id ∧ node = old.failed kind) ∨ (old.id ≠ id ∧ node = old) :=
    fun member => mem_update (b := b.touch id) member
  have unloaded : ∀ other, (∀ node ∈ b.nodes, node.id = other → node.childrenLoaded = false) →
      ∀ node ∈ (b.applyFetchError id kind).nodes, node.id = other → node.childrenLoaded = false := by
    intro other facts node member same
    obtain ⟨old,also,⟨_,rfl⟩ | ⟨_,rfl⟩⟩ := back member
    · rfl
    · exact facts _ also same
  refine ⟨ids,?_,fun _ current => current,fun _ => .inl,unloaded,fun other facts node member same => ?_⟩
  · simp only [Browser.applyFetchError]
    split <;> rfl
  · obtain ⟨old,also,⟨_,rfl⟩ | ⟨_,rfl⟩⟩ := back member
    · exact facts old also same
    · exact facts _ also same

theorem Sound.pane (sound : Sound b) {pane : ColumnsPane}
    (shows : pane.node = b.columnsPane.node ∨ ∃ id, pane.node = some id ∧ b.has id = true) :
    Sound { b with columnsPane := pane } :=
  { sound with
    refers := by
      rintro other (queued | active | shown)
      · exact sound.refers other (.inl queued)
      · exact sound.refers other (.inr (.inl active))
      · rcases shows with same | ⟨id,named,present⟩
        · exact sound.refers other (.inr (.inr (same ▸ shown)))
        · obtain rfl : id = other := Option.some.inj (named.symm.trans shown)
          exact present }

theorem Sound.touch (sound : Sound b) (present : b.has id = true) : Sound (b.touch id) :=
  { sound with
    applied := by
      intro entry member
      rcases mem_append.mp member with old | last
      · exact sound.applied entry old
      · rw [mem_singleton.mp last]
        exact present }

theorem Sound.applyFetchError (sound : Sound b) (spare : Spare b id) (kind : Option ErrorKind) :
    Sound (b.applyFetchError id kind) := by
  have marked : Sound ((b.touch id).update id (Node.failed kind)) := by
    refine (sound.touch spare.present).update (Marks.failed kind) (fun _ _ _ _ => rfl) (fun _ _ _ due => ?_)
      fun node member same ⟨other,also,under⟩ => ?_
    · exact absurd due spare.undue
    · have done := sound.loaded node member other also (same ▸ under)
      simp [spare.unloaded node member same] at done
  refine marked.pane (.inl ?_)
  split <;> rfl

end

section
variable {b : Browser} {id : Nat} (o : Outcome)

def Browser.failNext (kind : Option ErrorKind) (b : Browser) (id : Nat) : Browser :=
  if b.nodeGeneration id = b.generation then b.applyFetchError id kind else b

theorem Sound.failAll {ids : List Nat} (kind : Option ErrorKind) (sound : Sound b) (spare : ∀ id ∈ ids, Spare b id) :
    Sound (ids.foldl (Browser.failNext kind) b) ∧ Quiet b (ids.foldl (Browser.failNext kind) b) := by
  induction ids generalizing b with
  | nil => exact ⟨sound,.refl b⟩
  | cons id rest ih =>
    rw [foldl_cons,Browser.failNext]
    split
    · have quiet : Quiet b (b.applyFetchError id kind) := Quiet.applyFetchError kind
      obtain ⟨sound,after⟩ := ih (sound.applyFetchError (spare id (mem_cons_self ..)) kind)
        fun other member => quiet.spare (spare other (mem_cons_of_mem _ member))
      exact ⟨sound,quiet.trans after⟩
    · exact ih sound fun other member => spare other (mem_cons_of_mem _ member)

theorem Sound.shorten (sound : Sound b) (fewer : rest.Sublist b.pendingQueue) : Sound { b with pendingQueue := rest } :=
  { sound with
    queue := sound.queue.sublist fewer
    refers := fun _ refers => sound.refers _ (refers.imp_left fun queued => fewer.mem queued)
    awaits := fun node member awaits => sound.awaits node member (awaits.imp_left fun queued => fewer.mem queued)
    loads := fun node member due => sound.loads node member (due.imp_right (.imp_left fun queued => fewer.mem queued))
    behind := fun id active queued => sound.behind id active (fewer.mem queued) }

theorem Quiet.shorten (fewer : rest.Sublist b.pendingQueue) : Quiet b { b with pendingQueue := rest } :=
  .same rfl rfl (fun _ current => current.imp_left fun queued => fewer.mem queued) fun _ => .inl

theorem Sound.failQueued (sound : Sound b) (idle : b.activeNode = none) (kind : Option ErrorKind) :
    Sound (b.failQueued kind) ∧ Quiet b (b.failQueued kind) := by
  have emptied := sound.shorten (nil_sublist _)
  have spare : ∀ id ∈ b.pendingQueue, Spare { b with pendingQueue := [] } id := by
    intro id queued
    refine ⟨sound.refers id (.inl queued),?_,fun node member same => ?_⟩
    · simp [Browser.Due,Browser.Current,idle]
    · exact (sound.awaits node member (same ▸ .inl queued)).2
  obtain ⟨sound,quiet⟩ := emptied.failAll kind spare
  exact ⟨sound,(Quiet.shorten (nil_sublist _)).trans quiet⟩

section
variable (sound : Sound b) (active : b.activeNode = some id)
include sound active

theorem Sound.spare_of_active (current : b.nodeGeneration id = b.activeGeneration) :
    Spare b.released id ∧ ¬b.released.Awaits id := by
  have unawaited : ¬b.released.Awaits id := by
    rintro (queued | none)
    · exact sound.behind id active queued current
    · cases none
  refine ⟨⟨sound.refers id (.inr (.inl active)),fun due => unawaited due.awaits,fun node member same => ?_⟩,unawaited⟩
  exact (sound.awaits node member (same ▸ .inr active)).2

/-- The active fetch fails: its node has not been queued again, or the reply is dropped. -/
theorem Sound.failActive : Sound (b.failActive o id) ∧ Quiet b (b.failActive o id) := by
  unfold Browser.failActive
  split
  · next current =>
    exact ⟨sound.released.applyFetchError (sound.spare_of_active active current).1 _,
      Quiet.released.trans (Quiet.applyFetchError _)⟩
  · exact ⟨sound.released,Quiet.released⟩

end

theorem begun_awaits (queue : b.pendingQueue = id :: rest)
    (awaits : (b.begun id rest).Awaits other) : other ∈ b.pendingQueue := by
  rw [queue]
  rcases awaits with queued | active
  · exact mem_cons_of_mem _ queued
  · cases active
    exact mem_cons_self ..

section
variable (sound : Sound b) (queue : b.pendingQueue = id :: rest)

section
variable (current : b.nodeGeneration id = b.generation)
include queue current

theorem begun_due (due : (b.begun id rest).Due other) : b.Current other := by
  rcases due with active | ⟨queued,now⟩
  · cases active
    exact ⟨queue ▸ mem_cons_self ..,current⟩
  · exact ⟨queue ▸ mem_cons_of_mem _ queued,now⟩

include sound

theorem Sound.begun : Sound (b.begun id rest) :=
  { sound with
    queue := (nodup_cons.mp (queue ▸ sound.queue)).2
    refers := by
      rintro other (queued | active | shown)
      · exact sound.refers other (.inl (begun_awaits queue (.inl queued)))
      · exact sound.refers other (.inl (begun_awaits queue (.inr active)))
      · exact sound.refers other (.inr (.inr shown))
    awaits := fun node member awaits => sound.awaits node member (.inl (begun_awaits queue awaits))
    loads := fun node member due => sound.loads node member (.inr (begun_due queue current due))
    behind := by
      intro other active queued
      cases active
      exact absurd queued (nodup_cons.mp (queue ▸ sound.queue)).1
    past := le_refl _ }

omit sound in
theorem Quiet.begun : Quiet b (b.begun id rest) :=
  .same rfl rfl (fun _ later => begun_due queue current (.inr later)) fun _ active => .inr (begun_due queue current (.inl active))

end

include sound queue in
theorem Sound.spare_of_begun : Spare (b.begun id rest).released id := by
  refine ⟨sound.refers id (.inl (by simp [queue])),?_,fun node member same => ?_⟩
  · rintro (none | ⟨queued,_⟩)
    · cases none
    · exact (nodup_cons.mp (queue ▸ sound.queue)).1 queued
  · exact (sound.awaits node member (.inl (by simp [queue,same]))).2

end

structure Steady (b next : Browser) : Prop where
  session : next.session = b.session
  late : next.late = b.late
  ready : next.sessionReady = b.sessionReady
  openFailed : next.sessionOpenFailed = b.sessionOpenFailed
  closePending : next.closePending = b.closePending

variable (kind : Option ErrorKind)

theorem Steady.failAll (ids : List Nat) (b : Browser) : Steady b (ids.foldl (Browser.failNext kind) b) ∧
    (ids.foldl (Browser.failNext kind) b).activeNode = b.activeNode := by
  induction ids generalizing b with
  | nil => exact ⟨⟨rfl,rfl,rfl,rfl,rfl⟩,rfl⟩
  | cons id rest ih =>
    rw [foldl_cons,Browser.failNext]
    split
    · exact ⟨{ (ih (b.applyFetchError id kind)).1 with },(ih _).2⟩
    · exact ih b

theorem Steady.failQueued (b : Browser) :
    Steady b (b.failQueued kind) ∧ (b.failQueued kind).activeNode = b.activeNode :=
  let ⟨steady,active⟩ := Steady.failAll kind b.pendingQueue { b with pendingQueue := [] }
  ⟨{ steady with },active⟩

theorem Steady.failActive (id : Nat) (b : Browser) :
    Steady b (b.failActive o id) ∧ (b.failActive o id).activeNode = none := by
  unfold Browser.failActive
  split <;> exact ⟨⟨rfl,rfl,rfl,rfl,rfl⟩,rfl⟩

theorem startNextFetch_unready (unready : b.sessionReady = false) (fuel : Nat) :
    b.startNextFetch o fuel = b ∨ (∃ kind, b.startNextFetch o fuel = b.failQueued kind) ∧
      ∃ session, b.session = some session ∧ (b.sessionOpenFailed = true ∨ session.state = .closed) := by
  cases fuel with
  | zero => exact .inl rfl
  | succ fuel =>
    unfold Browser.startNextFetch
    split
    · next id rest session idle queue current =>
      by_cases dead : b.sessionOpenFailed = true ∨ session.state = .closed
      · exact .inr ⟨⟨_,if_pos dead⟩,session,current,dead⟩
      · rw [if_neg dead,if_pos unready]
        exact .inl rfl
    · exact .inl rfl

theorem Sound.startNextFetch (fuel : Nat) (sound : Sound b) :
    Sound (b.startNextFetch o fuel) ∧ Quiet b (b.startNextFetch o fuel) := by
  induction fuel generalizing b with
  | zero => exact ⟨sound,.refl b⟩
  | succ fuel ih =>
    unfold Browser.startNextFetch
    split
    · next id rest session idle queue current =>
      split_ifs with dead unready stale unprepared
      · exact sound.failQueued idle _
      · exact ⟨sound,.refl b⟩
      · have fewer : rest.Sublist b.pendingQueue := by rw [queue]; exact sublist_cons_self ..
        obtain ⟨sound,quiet⟩ := ih (sound.shorten fewer)
        exact ⟨sound,(Quiet.shorten fewer).trans quiet⟩
      · have current := not_not.mp stale
        obtain ⟨after,quiet⟩ := ih ((sound.begun queue current).released.applyFetchError (sound.spare_of_begun queue) _)
        exact ⟨after,((Quiet.begun queue current).trans Quiet.released).trans ((Quiet.applyFetchError _).trans quiet)⟩
      · have begun := sound.begun queue (not_not.mp stale)
        have begins := Quiet.begun queue (not_not.mp stale)
        split
        · exact ⟨{ begun with },begins.trans (.same rfl rfl (fun _ current => current) fun _ => .inl)⟩
        · next kind refused =>
          -- the slot for `failed` settles the node and starts the next fetch; then the call does so again
          let told := (b.begun id rest).refused (b.requestFor id) session kind
          have begins : Quiet b told := begins.trans (.same rfl rfl (fun _ current => current) fun _ => .inl)
          have unmoved : told.nodeGeneration id = told.activeGeneration := not_not.mp stale
          have spare : Spare told.released id :=
            let ⟨present,undue,unloaded⟩ := sound.spare_of_begun queue
            ⟨present,undue,unloaded⟩
          have failed : told.failActive o id = told.released.applyFetchError id (told.correctedKind o) :=
            if_pos unmoved
          obtain ⟨soundly,quietly⟩ := Sound.failActive o (b := told) { begun with } rfl
          have settled : Spare (told.failActive o id) id := failed ▸ (Quiet.applyFetchError _).spare spare
          obtain ⟨first,calm⟩ := ih soundly
          have still := Quiet.released.spare (calm.spare settled)
          obtain ⟨second,calm'⟩ := ih (first.released.applyFetchError still _)
          refine ⟨second,begins.trans ((quietly.trans calm).trans ?_)⟩
          exact Quiet.released.trans ((Quiet.applyFetchError _).trans calm')
    · exact ⟨sound,.refl b⟩

theorem Sound.startNextFetchIfIdle (sound : Sound b) :
    Sound (b.startNextFetchIfIdle o) ∧ Quiet b (b.startNextFetchIfIdle o) := sound.startNextFetch o _

theorem Sound.performClose (sound : Sound b) : Sound (b.performClose o) := by
  unfold Browser.performClose
  split
  · exact sound
  · split
    · exact { sound with }
    · exact { sound with }

theorem Quiet.performClose (b : Browser) : Quiet b (b.performClose o) := by
  unfold Browser.performClose
  split
  · exact .refl b
  · split
    · exact .same rfl rfl (fun _ current => current) fun _ => .inl
    · exact .same rfl rfl (fun _ current => current) fun _ => .inl

theorem Sound.onMetadataSessionFailed (sound : Sound b) :
    Sound (b.onMetadataSessionFailed o) ∧ Quiet b (b.onMetadataSessionFailed o) := by
  have latch : Quiet b { b with sessionOpenFailed := true } := .same rfl rfl (fun _ current => current) fun _ => .inl
  unfold Browser.onMetadataSessionFailed
  split
  · split
    · exact ⟨Sound.performClose o (b := { b with sessionOpenFailed := true }) { sound with },
        latch.trans (Quiet.performClose o _)⟩
    · obtain ⟨after,quiet⟩ :=
        Sound.startNextFetchIfIdle o (b := { b with sessionOpenFailed := true }) { sound with }
      exact ⟨after,latch.trans quiet⟩
  · next id active =>
    obtain ⟨failed,quiet⟩ := sound.failActive o active
    obtain ⟨after,quiet'⟩ := failed.startNextFetchIfIdle o
    exact ⟨after,quiet.trans quiet'⟩

theorem startNextFetch_idle (unready : b.sessionReady = false) (idle : b.activeNode = none) (fuel : Nat) :
    (b.startNextFetch o fuel).activeNode = none := by
  rcases startNextFetch_unready o unready fuel with same | ⟨⟨kind,same⟩,_⟩
  · rw [same]
    exact idle
  · rw [same]
    exact (Steady.failQueued kind b).2.trans idle

theorem onMetadataSessionFailed_unready (unready : b.sessionReady = false) :
    (b.onMetadataSessionFailed o).activeNode = none := by
  unfold Browser.onMetadataSessionFailed
  split
  · next idle =>
    split
    · unfold Browser.performClose
      split
      · exact idle
      · split <;> exact idle
    · exact startNextFetch_idle o (b := { b with sessionOpenFailed := true }) unready idle _
  · next id active =>
    obtain ⟨failed,idle⟩ := Steady.failActive o id b
    exact startNextFetch_idle o (failed.ready.trans unready) idle _

variable (sound : Sound b) (present : b.has id = true)
include sound present

theorem Sound.queued
    (blank : ∀ node ∈ b.nodes, node.id = id → (node.fetches = true ∧ node.childrenLoaded = false) ∧ node.loading = true)
    (newer : b.activeNode = some id → b.generation ≠ b.activeGeneration) :
    Sound { b with
      nodeGeneration := Function.update b.nodeGeneration id b.generation
      pendingQueue := if id ∈ b.pendingQueue then b.pendingQueue else b.pendingQueue ++ [id] } := by
  have back : ∀ {other}, other ∈ (if id ∈ b.pendingQueue then b.pendingQueue else b.pendingQueue ++ [id]) →
      other = id ∨ other ∈ b.pendingQueue := by
    intro other queued
    split at queued
    · exact .inr queued
    · rcases mem_append.mp queued with old | last
      · exact .inr old
      · exact .inl (mem_singleton.mp last)
  refine ⟨sound.distinct,sound.older,?_,fun other refers => ?_,fun node member awaits => ?_,fun node member due => ?_,
    sound.loaded,fun other active queued => ?_,sound.past,fun other => ?_,sound.applied⟩
  · split
    · exact sound.queue
    · next unqueued =>
      exact nodup_append.mpr ⟨sound.queue,nodup_singleton _,fun first queued last new same =>
        unqueued (mem_singleton.mp new ▸ same ▸ queued)⟩
  · rcases refers with queued | active | shown
    · rcases back queued with rfl | old
      · exact present
      · exact sound.refers other (.inl old)
    · exact sound.refers other (.inr (.inl active))
    · exact sound.refers other (.inr (.inr shown))
  · by_cases same : node.id = id
    · exact (blank node member same).1
    · rcases awaits with queued | active
      · exact sound.awaits node member (.inl ((back queued).resolve_left same))
      · exact sound.awaits node member (.inr active)
  · by_cases same : node.id = id
    · exact (blank node member same).2
    · refine sound.loads node member (due.imp_right fun ⟨queued,now⟩ => ⟨(back queued).resolve_left same,?_⟩)
      simpa [same] using now
  · by_cases same : other = id
    · subst same
      simpa using newer active
    · simpa [same] using sound.behind other active ((back queued).resolve_left same)
  · by_cases same : other = id
    · simp [same]
    · simpa [same] using sound.dated other

theorem Sound.enqueue (blank : ∀ node ∈ b.nodes, node.id = id → node.fetches = true ∧ node.childrenLoaded = false)
    (newer : b.activeNode = some id → b.generation ≠ b.activeGeneration) : Sound (b.enqueue id) := by
  have marked : Sound (b.update id Node.waiting) := by
    refine sound.update Marks.waiting (fun node member same _ => (blank node member same).2) (fun _ _ _ _ => rfl)
      fun node member same ⟨other,also,under⟩ => ?_
    exact sound.loaded node member other also (same ▸ under)
  refine marked.queued ((has_of_ids (Marks.waiting.ids b id) id).trans present) (fun node member same => ?_) newer
  obtain ⟨old,there,⟨mine,rfl⟩ | ⟨apart,rfl⟩⟩ := mem_update member
  · exact ⟨blank old there mine,rfl⟩
  · exact absurd same apart

end

section
variable {b : Browser} {id : Nat}

theorem numbered (make : Nat → α → Node) (named : ∀ i x, (make i x).id = i) (xs : List α) (start offset : Nat) :
    ((xs.zipIdx offset).map fun x => make (start + x.2) x.1).map Node.id = range' (start + offset) xs.length := by
  induction xs generalizing offset with
  | nil => rfl
  | cons x rest ih =>
    have tail := ih (offset + 1)
    simp only [zipIdx_cons,map_cons,named,length_cons,range'_succ,tail]
    rfl

theorem rowChild_id (node : Node) (id : Nat) (values : List String) : (node.rowChild id values).id = id := by
  unfold Node.rowChild
  split <;> rfl

theorem rowChild_parents (node : Node) (id : Nat) (values : List String) :
    (node.rowChild id values).parents = node.id :: node.parents := by
  unfold Node.rowChild
  split <;> rfl

structure Fresh (b : Browser) (node : Node) (children : List Node) : Prop where
  ids : children.map Node.id = List.range' b.nextNode children.length
  parents : ∀ child ∈ children, child.parents = node.id :: node.parents

theorem Fresh.newer (fresh : Fresh b node children)
    (member : child ∈ children) : b.nextNode ≤ child.id ∧ child.id < b.nextNode + children.length := by
  have ranged : child.id ∈ range' b.nextNode children.length := fresh.ids ▸ mem_map_of_mem member
  simpa [mem_range'_1] using ranged

theorem Fresh.rows (b : Browser) (node : Node) (rows : List (List String)) :
    Fresh b node (b.rowChildren node rows) where
  ids := by
    simpa [Browser.rowChildren] using numbered (fun i x => node.rowChild i x) (rowChild_id node) rows b.nextNode 0
  parents child member := by
    obtain ⟨row,_,rfl⟩ := mem_map.mp member
    exact rowChild_parents ..

theorem Fresh.groups (b : Browser) (node : Node) :
    Fresh b node (groups.zipIdx.map fun group => node.groupChild (b.nextNode + group.2) group.1) where
  ids := by
    simpa using numbered (fun i x => node.groupChild i x) (fun _ _ => rfl) ObjectBrowser.groups b.nextNode 0
  parents child member := by
    obtain ⟨group,_,rfl⟩ := mem_map.mp member
    rfl

theorem Fresh.columns (b : Browser) (node : Node) : Fresh b node [node.columnsChild b.nextNode] where
  ids := rfl
  parents child member := by
    rw [mem_singleton.mp member]
    rfl

theorem Sound.older_parents (sound : Sound b) (member : node ∈ b.nodes)
    (under : parent ∈ node.parents) : parent < b.nextNode :=
  lt_trans ((sound.older node member).2 parent under) (sound.older node member).1

theorem Sound.adopt (sound : Sound b) (member : node ∈ b.nodes) (loaded : node.childrenLoaded = true)
    (fresh : Fresh b node children) : Sound (b.adopt children) := by
  have known : ∀ id, b.Refers id → id < b.nextNode := by
    intro id refers
    obtain ⟨node,member,rfl⟩ := has_iff.mp (sound.refers id refers)
    exact (sound.older node member).1
  refine ⟨?_,fun other also => ?_,sound.queue,fun id refers => ?_,fun other also awaits => ?_,fun other also due => ?_,
    fun upper also lower there under => ?_,sound.behind,sound.past,sound.dated,sound.applied⟩
  · simp only [Browser.adopt,map_append,fresh.ids]
    refine nodup_append.mpr ⟨sound.distinct,nodup_range',fun old member new ranged same => ?_⟩
    obtain ⟨other,there,rfl⟩ := mem_map.mp member
    have := (sound.older other there).1
    have := (mem_range'_1.mp ranged).1
    omega
  · rcases mem_append.mp also with old | new
    · exact ⟨Nat.lt_add_right _ (sound.older other old).1,(sound.older other old).2⟩
    · obtain ⟨above,below⟩ := fresh.newer new
      refine ⟨below,fun parent under => ?_⟩
      rw [fresh.parents other new] at under
      rcases mem_cons.mp under with rfl | under
      · exact lt_of_lt_of_le (sound.older node member).1 above
      · exact lt_of_lt_of_le (sound.older_parents member under) above
  · obtain ⟨node,member,rfl⟩ := has_iff.mp (sound.refers id refers)
    exact has_iff.mpr ⟨node,mem_append_left _ member,rfl⟩
  · rcases mem_append.mp also with old | new
    · exact sound.awaits other old awaits
    · exact absurd (fresh.newer new).1 (not_le.mpr (known other.id (awaits.imp_right .inl)))
  · rcases mem_append.mp also with old | new
    · exact sound.loads other old due
    · exact absurd (fresh.newer new).1 (not_le.mpr (known other.id (due.awaits.imp_right .inl)))
  · have parents : upper.id < b.nextNode → upper ∈ b.nodes := fun older => by
      rcases mem_append.mp also with old | new
      · exact old
      · have := (fresh.newer new).1
        omega
    rcases mem_append.mp there with old | new
    · exact sound.loaded upper (parents (sound.older_parents old under)) lower old under
    · rw [fresh.parents lower new] at under
      rcases mem_cons.mp under with same | under
      · have upperOld := parents (same ▸ (sound.older node member).1)
        rw [sound.unique upperOld member same]
        exact loaded
      · exact sound.loaded upper (parents (sound.older_parents member under)) node member under

theorem update_adopt (apart : ∀ child ∈ children, child.id ≠ id) :
    (b.adopt children).update id f = (b.update id f).adopt children := by
  have same : children.map (fun node => if node.id = id then f node else node) = children :=
    (map_congr_left (g := fun node => node) fun child member => if_neg (apart child member)).trans (map_id' children)
  simp [Browser.adopt,Browser.update,same]

theorem Sound.grow (sound : Sound b) (marks : Marks f)
    (loads : ∀ node, (f node).childrenLoaded = true) (member : node ∈ b.nodes)
    (unawaited : ¬b.Awaits node.id) (fresh : Fresh b node children) :
    Sound ((b.adopt children).update node.id f) := by
  have apart : ∀ child ∈ children, child.id ≠ node.id := by
    intro child new
    have := (fresh.newer new).1
    have := (sound.older node member).1
    omega
  rw [update_adopt apart]
  have marked : Sound (b.update node.id f) :=
    sound.update marks (fun _ _ _ awaits => absurd awaits unawaited) (fun _ _ _ due => absurd due.awaits unawaited)
      fun other _ _ _ => loads other
  have there : f node ∈ (b.update node.id f).nodes := mem_map.mpr ⟨node,member,if_pos rfl⟩
  refine marked.adopt there (loads node) ⟨fresh.ids,fun child new => ?_⟩
  rw [fresh.parents child new,marks.id,marks.parents]

end

section
variable {b : Browser} {id : Nat} (o : Outcome)

def Browser.refreshedBy (b : Browser) : Call → Option Nat
  | .expand id true => some id
  | .setFilter id text =>
    if (b.find id).any fun node => (node.kind == .connection || node.kind == .group) && node.filterText != text
    then some id else none
  | _ => none

def Browser.Unreferred (b : Browser) (id : Nat) : Prop := ∀ node ∈ b.nodes, b.Refers node.id → id ∉ node.parents

section
variable (sound : Sound b)
include sound

theorem Sound.clearChildren (gentle : b.Unreferred id) : Sound (b.clearChildren id) := by
  have fewer : (b.clearChildren id).nodes.Sublist b.nodes := filter_sublist
  have kept : ∀ {node}, node ∈ (b.clearChildren id).nodes → node ∈ b.nodes := fun member => fewer.mem member
  refine ⟨sound.distinct.sublist (fewer.map _),fun node member => sound.older node (kept member),sound.queue,
    fun other refers => ?_,fun node member => sound.awaits node (kept member),fun node member => sound.loads node (kept member),
    fun node member other also => sound.loaded node (kept member) other (kept also),sound.behind,sound.past,sound.dated,
    sound.applied⟩
  obtain ⟨node,member,rfl⟩ := has_iff.mp (sound.refers other refers)
  exact has_iff.mpr ⟨node,mem_filter.mpr ⟨member,by simpa using gentle node member refers⟩,rfl⟩

theorem Sound.refresh (gentle : b.Unreferred id) : Sound (b.refresh id) := by
  have cleared := sound.clearChildren gentle
  have marked : Sound ((b.clearChildren id).update id Node.refreshed) := by
    refine cleared.update Marks.refreshed (fun _ _ _ _ => rfl) (fun node member same due => ?_)
      fun _ _ _ ⟨other,also,under⟩ => ?_
    · exact cleared.loads node member (same ▸ due)
    · have above := (mem_filter.mp also).2
      simp [under] at above
  -- every place in the queue is out of date now
  refine { marked with
    loads := fun node member due => marked.loads node member (.inl (due.resolve_right fun now => ?_))
    past := le_succ_of_le sound.past
    dated := fun other => le_succ_of_le (sound.dated other) }
  exact absurd now.2 (Nat.ne_of_lt (Nat.lt_succ_of_le (sound.dated _)))

theorem Sound.mem_refresh (member : node ∈ b.nodes) : node.refreshed ∈ (b.refresh node.id).nodes := by
  have self : node.id ∉ node.parents := fun under => lt_irrefl _ ((sound.older node member).2 _ under)
  exact mem_map.mpr ⟨node,mem_filter.mpr ⟨member,by simpa using self⟩,if_pos rfl⟩

theorem Sound.populated (member : node ∈ b.nodes)
    (unawaited : ¬b.Awaits node.id) (fresh : Fresh b node children) :
    Sound (if (b.children node.id).isEmpty then (b.adopt children).update node.id Node.populated
      else b.update node.id Node.populated) := by
  split
  · exact sound.grow Marks.populated (fun _ => rfl) member unawaited fresh
  · exact sound.update Marks.populated (fun _ _ _ awaits => absurd awaits unawaited)
      (fun _ _ _ due => absurd due.awaits unawaited) fun _ _ _ _ => rfl

/-- The node is queued; or, if the session was let go when it could not open, it fails. -/
theorem Sound.fetch (member : node ∈ b.nodes) (fetches : node.fetches = true) (unloaded : node.childrenLoaded = false)
    (newer : b.activeNode = some node.id → b.generation ≠ b.activeGeneration) (stale : ¬b.Current node.id) :
    Sound ((b.ensureSessionOpen o).queueFetch o node.id) := by
  have mine : ∀ other ∈ b.nodes, other.id = node.id → other = node := fun other also same =>
    sound.unique also member same
  -- in a browser whose nodes are those of this one
  have queued {next : Browser} (sound : Sound next) (quiet : Quiet b next)
      (newer : next.activeNode = some node.id → next.generation ≠ next.activeGeneration)
      (absent : next.session = none → next.activeNode = none) : Sound (next.queueFetch o node.id) := by
    have present : next.has node.id = true := (has_of_ids quiet.ids _).trans (has_iff.mpr ⟨node,member,rfl⟩)
    have blank := quiet.unloaded node.id fun other also same => mine other also same ▸ unloaded
    unfold Browser.queueFetch
    split
    · next gone =>
      refine sound.applyFetchError ⟨present,?_,blank⟩ _
      rintro (active | current)
      · simp [absent gone] at active
      · exact stale (quiet.current _ current)
    · refine ((sound.enqueue present (fun other also same => ⟨?_,blank other also same⟩) newer).startNextFetchIfIdle o).1
      exact quiet.kinds node.id (fun other also same => mine other also same ▸ fetches) other also same
  unfold Browser.ensureSessionOpen
  split
  · next current => exact queued sound (.refl b) newer fun none => absurd (current.symm.trans none) (by simp)
  · split
    · exact queued { sound with } (.same rfl rfl (fun _ current => current) fun _ => .inl) newer nofun
    · next kind refused =>
      let told := { b with
        session := some ⟨false,.usable,[],some kind⟩, sessionOpenFailed := false, sessionReady := false }
      have idle := onMetadataSessionFailed_unready o (b := told) rfl
      obtain ⟨sound,quiet⟩ := Sound.onMetadataSessionFailed o (b := told) { sound with }
      have same : Quiet b told := .same rfl rfl (fun _ current => current) fun _ => .inl
      exact queued sound (same.trans quiet) (fun active => absurd (idle.symm.trans active) (by simp)) fun _ => idle

theorem Sound.populated_static (member : node ∈ b.nodes) (static : node.fetches = false) (fresh : Fresh b node children) :
    Sound (if (b.children node.id).isEmpty then (b.adopt children).update node.id Node.populated
      else b.update node.id Node.populated) :=
  sound.populated member (fun awaits => by simp [(sound.awaits node member awaits).1] at static) fresh

theorem Sound.load (member : here ∈ b.nodes) (same : here.id = node.id)
    (parents : here.parents = node.parents) (kind : here.kind = node.kind)
    (unloaded : here.childrenLoaded = false)
    (newer : b.activeNode = some node.id → b.generation ≠ b.activeGeneration) (stale : ¬b.Current node.id) :
    Sound (b.load o node) := by
  have place : ∀ {children}, Fresh b node children → Fresh b here children := fun fresh =>
    ⟨fresh.ids,fun child new => by rw [fresh.parents child new,same,parents]⟩
  unfold Browser.load
  cases is : node.kind with
  | connection | group | columnsNode =>
    rw [← same] at newer stale ⊢
    exact sound.fetch o member (by simp [Node.fetches,kind,is]) unloaded newer stale
  | schema =>
    have static : here.fetches = false := by simp [Node.fetches,kind,is]
    have grown := sound.populated_static member static (place (.groups b node))
    rwa [same] at grown
  | object =>
    have static : here.fetches = false := by simp [Node.fetches,kind,is]
    have grown := sound.populated_static member static (place (.columns b node))
    rw [same] at grown
    dsimp only
    split
    · exact grown
    · exact sound
  | column => exact sound

theorem Sound.expand_plain (id : Nat) : Sound (b.expand o id false) := by
  unfold Browser.expand
  split
  · exact sound
  · next node found =>
    obtain ⟨member,rfl⟩ := find_spec found
    split
    · exact sound
    · split
      · next forced => cases forced
      · split
        · exact sound
        · next settled =>
          simp only [Bool.or_eq_true,not_or,Bool.not_eq_true] at settled
          have undue : ¬b.Due node.id := fun due => by simp [sound.loads node member due] at settled
          exact sound.load o member rfl rfl rfl settled.2 (fun active => absurd (.inl active) undue)
            fun current => undue (.inr current)

theorem Sound.expand_forced (gentle : b.Unreferred id) : Sound (b.expand o id true) := by
  unfold Browser.expand
  split
  · exact sound
  · next node found =>
    obtain ⟨member,rfl⟩ := find_spec found
    split
    · exact sound
    · exact (sound.refresh gentle).load o (sound.mem_refresh member) rfl rfl rfl rfl
        (fun _ => ne_of_gt (lt_succ_of_le sound.past))
        fun current => absurd current.2 (Nat.ne_of_lt (Nat.lt_succ_of_le (sound.dated _)))

end

theorem Sound.filtered (sound : Sound b) (text : String) : Sound (b.update id (Node.filtered text)) := by
  refine sound.update (Marks.filtered text) (fun node member same awaits => ?_) (fun node member same due => ?_)
    fun node member same ⟨other,also,under⟩ => ?_
  · exact (sound.awaits node member (same ▸ awaits)).2
  · exact sound.loads node member (same ▸ due)
  · exact sound.loaded node member other also (same ▸ under)

theorem Sound.setFilter (sound : Sound b) (text : String)
    (gentle : b.refreshedBy (.setFilter id text) = some id → b.Unreferred id) : Sound (b.setFilter o id text) := by
  unfold Browser.setFilter
  split
  · exact sound
  · next node found =>
    split
    · exact sound
    · next kinds =>
      split
      · exact sound
      · next changed =>
        have gentle := gentle (by
          simp only [Browser.refreshedBy,found]
          cases is : node.kind <;> simp_all)
        refine (sound.filtered text).expand_forced o fun node member refers => ?_
        obtain ⟨old,there,same,parents⟩ := (Marks.filtered text).place member
        rw [parents]
        exact gentle old there (same ▸ refers)

theorem Sound.showColumns (sound : Sound b) (member : columns ∈ b.nodes) : Sound (b.showColumns o columns) := by
  have present : b.has columns.id = true := has_iff.mpr ⟨columns,member,rfl⟩
  unfold Browser.showColumns
  split
  · exact sound.pane (.inr ⟨columns.id,rfl,present⟩)
  · have shown : Sound ((b.showPane columns (b.paneTitle columns)).awaitPane) :=
      sound.pane (.inr ⟨columns.id,rfl,present⟩)
    exact shown.expand_plain o columns.id

theorem Sound.activate (sound : Sound b) : Sound (b.activate o id) := by
  unfold Browser.activate
  split
  · exact sound
  · next node found =>
    obtain ⟨member,rfl⟩ := find_spec found
    split
    · exact sound.showColumns o member
    · split
      · next table =>
        have static : node.fetches = false := by simp [Node.fetches,table.1]
        have ready : Sound (if node.childrenLoaded then b else b.populateStaticColumnsNode node) := by
          split
          · exact sound
          · exact sound.populated_static member static (.columns b node)
        dsimp only
        split
        · next columns first =>
          exact ready.showColumns o (mem_filter.mp (mem_of_mem_head? first)).1
        · exact ready
      · exact sound

theorem Sound.idleAll {ids : List Nat} (sound : Sound b) (quiet : ∀ id, ¬b.Awaits id) :
    Sound (ids.foldl (fun b id => b.update id Node.idle) b) := by
  induction ids generalizing b with
  | nil => exact sound
  | cons id rest ih =>
    refine ih (sound.update Marks.idle (fun _ _ _ awaits => absurd awaits (quiet id))
      (fun _ _ _ due => absurd due.awaits (quiet id)) ?_) quiet
    rintro node member same ⟨other,also,under⟩
    exact sound.loaded node member other also (same ▸ under)

theorem dropFetches_nodes (b : Browser) : ∃ nodes, b.dropFetches =
    { b.released with generation := b.generation + 1, pendingQueue := [], nodes := nodes } := by
  have idles : ∀ (ids : List Nat) (b : Browser),
      ∃ nodes, ids.foldl (fun b id => b.update id Node.idle) b = { b with nodes := nodes } := by
    intro ids
    induction ids with
    | nil => exact fun b => ⟨_,rfl⟩
    | cons id rest ih => exact fun b => ih _
  exact idles ..

theorem Sound.dropFetches (sound : Sound b) : Sound b.dropFetches := by
  have emptied : Sound { b.released with generation := b.generation + 1, pendingQueue := [] } :=
    { sound.released.shorten (nil_sublist _) with
      loads := fun node member due => due.elim nofun nofun
      past := le_succ_of_le sound.past
      dated := fun id => le_succ_of_le (sound.dated id) }
  refine emptied.idleAll fun id awaits => ?_
  rcases awaits with queued | active
  · cases queued
  · cases active

theorem Sound.closeConnection (sound : Sound b) : Sound (b.closeConnection o) := by
  have dropped := sound.dropFetches
  unfold Browser.closeConnection
  split
  · exact sound
  · split
    · exact { dropped with }
    · split
      · exact { dropped with }
      · exact dropped.performClose o

theorem Sound.applyRows (sound : Sound b) (spare : Spare b id) (unawaited : ¬b.Awaits id) (rows : List (List String))
    (truncated : Bool) : Sound (b.applyRows id rows truncated) := by
  unfold Browser.applyRows
  split
  · next absent =>
    obtain ⟨node,member,same⟩ := has_iff.mp spare.present
    have none := find?_eq_none.mp absent node member
    simp [same] at none
  · next node found =>
    obtain ⟨member,rfl⟩ := find_spec found
    have cleared : (b.touch node.id).clearChildren node.id = b.touch node.id := by
      have bare : b.nodes.filter (fun other => !other.parents.contains node.id) = b.nodes := by
        refine filter_eq_self.mpr fun other also => ?_
        simpa using sound.childless member (spare.unloaded node member rfl) other also
      simp only [Browser.clearChildren,Browser.touch,bare]
    have filled : Sound ((b.touch node.id).fill node rows truncated) := by
      rw [Browser.fill,cleared]
      exact (sound.touch spare.present).grow (.filled truncated rows.length) (fun _ => rfl) member unawaited
        (.rows _ node rows)
    split
    · exact filled.pane (.inl rfl)
    · exact filled

theorem Sound.completeActive (sound : Sound b) (active : b.activeNode = some id) (rows : List (List String)) :
    Sound (b.completeActive id rows) := by
  unfold Browser.completeActive
  split
  · next current =>
    obtain ⟨spare,unawaited⟩ := sound.spare_of_active active current
    split
    · exact sound.released.applyRows spare unawaited _ _
    · exact sound.released.applyRows spare unawaited _ _
  · exact sound.released

theorem Sound.signal (sound : Sound b) (reply : Reply) : Sound (reply.signal o b) := by
  cases reply with
  | opened =>
    have ready : Sound { b with sessionReady := true } := { sound with }
    simp only [Reply.signal,Browser.onMetadataSessionOpened]
    split
    · exact ready.performClose o
    · exact (ready.startNextFetchIfIdle o).1
  | openFailed | executeFailed => exact (sound.onMetadataSessionFailed o).1
  | resultComplete rows =>
    simp only [Reply.signal,Browser.onMetadataResultComplete]
    split
    · exact sound
    · next active => exact ((sound.completeActive active rows).startNextFetchIfIdle o).1
  | sessionClosed =>
    simp only [Reply.signal,Browser.onMetadataSessionClosed]
    split
    · exact { sound with }
    · exact { sound with }

end

/-- A call that takes no node out of the tree that is queued, fetched or shown. -/
def Gentle (b : Browser) : Move → Prop
  | .call call => ∀ id, b.refreshedBy call = some id → b.Unreferred id
  | .reply _ | .late _ => True

def GentleStep (b next : Browser) : Prop := ∃ o move, Step o b move next ∧ Gentle b move

theorem Sound.step {b next : Browser} (sound : Sound b) (step : GentleStep b next) : Sound next := by
  obtain ⟨o,move,step,gentle⟩ := step
  cases step with
  | call call =>
    cases call with
    | expand id force =>
      cases force with
      | false => exact sound.expand_plain o id
      | true => exact sound.expand_forced o (gentle id rfl)
    | setFilter id text => exact sound.setFilter o text (gentle id)
    | activate id => exact sound.activate o
    | closeConnection => exact sound.closeConnection o
  | @reply session reply =>
    have heard : Sound { b with session := some (session.answered reply) } := { sound with }
    exact heard.signal o reply
  | @late reply =>
    have heard : Sound { b with late := b.late.erase reply.request } := { sound with }
    exact heard.signal o reply

theorem start_sound (rowCap : Nat) : Sound (.start rowCap) := by
  constructor <;> simp [Browser.start,Browser.Refers,Browser.Awaits,Browser.Due,Browser.Current]

theorem gentle_run (run : Relation.ReflTransGen GentleStep (.start rowCap) b) : Sound b := by
  induction run with
  | refl => exact start_sound rowCap
  | tail _ step ih => exact ih.step step

/-- Whatever is called and in whatever order the replies come, if no refresh takes away a node that
is queued, fetched or shown: every node that the browser refers to is in the tree, and rows and
errors have only been applied to nodes that were. -/
theorem references_stay_in_tree {b : Browser} {rowCap : Nat}
    (run : Relation.ReflTransGen GentleStep (.start rowCap) b) :
    (∀ id, b.Refers id → b.has id = true) ∧ ∀ entry ∈ b.applied, entry.2 = true := by
  have sound := gentle_run run
  exact ⟨sound.refers,sound.applied⟩

/-- Over the same runs the flags of the tree are true: parents are older than their children, a node
with children is loaded, one that waits for rows has none, and one that is fetched, or queued and
not out of date, says so. -/
theorem tree_flags_are_true {b : Browser} {rowCap : Nat} (run : Relation.ReflTransGen GentleStep (.start rowCap) b) :
    (b.nodes.map Node.id).Nodup ∧ b.pendingQueue.Nodup ∧ (∀ node ∈ b.nodes, ∀ parent ∈ node.parents, parent < node.id) ∧
    (∀ node ∈ b.nodes, ∀ other ∈ b.nodes, node.id ∈ other.parents → node.childrenLoaded = true) ∧
    ∀ node ∈ b.nodes, (b.Awaits node.id → node.childrenLoaded = false) ∧ (b.Due node.id → node.loading = true) := by
  have sound := gentle_run run
  exact ⟨sound.distinct,sound.queue,fun node member => (sound.older node member).2,sound.loaded,
    fun node member => ⟨fun waits => (sound.awaits node member waits).2,sound.loads node member⟩⟩

def willing : Outcome := ⟨none,fun _ => none,true,fun _ => true,fun _ kind => kind⟩
def Browser.calls (call : Call) (b : Browser) : Browser := call.perform willing b

def Browser.hears (reply : Reply) (b : Browser) : Browser :=
  match b.session with
  | some session => reply.deliver willing b session
  | none => b

theorem gentle_call (call : Call) (keeps : b.refreshedBy call = none) : GentleStep b (b.calls call) := by
  refine ⟨willing,_,.call call,fun id refreshed => ?_⟩
  rw [keeps] at refreshed
  cases refreshed

theorem hears_step (reply : Reply) (current : b.session = some session)
    (outstanding : reply.request ∈ session.outstanding) : Step willing b (.reply reply) (b.hears reply) := by
  rw [Browser.hears,current]
  exact .reply current outstanding

theorem gentle_reply (reply : Reply) (current : b.session = some session)
    (outstanding : reply.request ∈ session.outstanding) : GentleStep b (b.hears reply) :=
  ⟨willing,_,hears_step reply current outstanding,trivial⟩

def listedSchemas : Browser :=
  (((Browser.start 500).calls (.expand 0 false)).hears .opened).hears (.resultComplete [["HR"]])

def fetchingTables : Browser := (listedSchemas.calls (.expand 1 false)).calls (.expand 2 false)

theorem fetchingTables_run : Relation.ReflTransGen GentleStep (.start 500) fetchingTables := by
  refine .head (gentle_call (.expand 0 false) rfl) (.head (gentle_reply .opened rfl (by decide))
    (.head (gentle_reply (.resultComplete [["HR"]]) rfl (by decide)) ?_))
  exact .head (gentle_call (.expand 1 false) rfl) (.single (gentle_call (.expand 2 false) rfl))

theorem fetched_tables_say_so : fetchingTables.Due 2 ∧ ∀ node ∈ fetchingTables.nodes,
    (fetchingTables.Awaits node.id → node.childrenLoaded = false) ∧ (fetchingTables.Due node.id → node.loading = true) :=
  ⟨.inl (by decide),(tree_flags_are_true fetchingTables_run).2.2.2.2⟩

theorem fetched_tables_are_in_tree :
    fetchingTables.activeNode = some 2 ∧ (∀ id, fetchingTables.Refers id → fetchingTables.has id = true) ∧
      ∀ entry ∈ fetchingTables.applied, entry.2 = true :=
  ⟨by decide,references_stay_in_tree fetchingTables_run⟩

def AnyStep (b next : Browser) : Prop := ∃ o move, Step o b move next

theorem GentleStep.any {next : Browser} (step : GentleStep b next) : AnyStep b next :=
  let ⟨o,move,taken,_⟩ := step
  ⟨o,move,taken⟩

/-- A refresh of the connection while a group under it is being fetched: the group is gone, its fetch
is still active, and the rows are written to it. -/
theorem rows_for_a_destroyed_node : Relation.ReflTransGen AnyStep (.start 500) (fetchingTables.calls (.expand 0 true)) ∧
    (fetchingTables.calls (.expand 0 true)).activeNode = some 2 ∧
    (fetchingTables.calls (.expand 0 true)).has 2 = false ∧
    Relation.ReflTransGen AnyStep (.start 500)
      ((fetchingTables.calls (.expand 0 true)).hears (.resultComplete [["EMP"]])) ∧
    (2,false) ∈ ((fetchingTables.calls (.expand 0 true)).hears (.resultComplete [["EMP"]])).applied := by
  have fetching : Relation.ReflTransGen AnyStep (.start 500) fetchingTables :=
    Relation.ReflTransGen.mono (fun _ _ => GentleStep.any) _ _ fetchingTables_run
  have refreshed : Relation.ReflTransGen AnyStep (.start 500) (fetchingTables.calls (.expand 0 true)) :=
    fetching.tail ⟨willing,_,.call (.expand 0 true)⟩
  have applied := refreshed.tail ⟨willing,_,hears_step (.resultComplete [["EMP"]]) rfl (by decide)⟩
  exact ⟨refreshed,by decide,by decide,applied,by decide⟩

end Reldex.ObjectBrowser
