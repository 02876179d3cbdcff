import Reldex.Guarantees
import Reldex.HubEvents

/-! The wakes of a caller built against a header before 3.2. A worker that made the queue
non-empty looks through it first: it discards what that caller is never given and parks the
first event that it is. It only tries the lock that a drain holds, so any of this may fall
between the steps of a drain. -/
namespace Reldex.Ffi.Waking
open List Option Function

/-- `db-core`'s queue and the event parked in front of it. -/
structure HubQueue where
  events : Shared
  front : Option SessionEvent

/-- The parked event goes first. -/
def HubQueue.next (queue : HubQueue) : Option SessionEvent × HubQueue :=
  match queue.front with
  | some event => (some event,{ queue with front := none })
  | none =>
    match queue.events.inner.pop with
    | none => (none,queue)
    | some (queued,inner) => (some queued.event,{ queue with events := { queue.events with inner := inner } })

/-- What is written down: an event went into the queue, a drain looked for one, a call of
`reldex_hub_next_event` returned with one or without, the callback was invoked. -/
inductive Mark where
  | queued (event : SessionEvent)
  | looked (found : Option SessionEvent)
  | returned (handed : Option SessionEvent)
  | called

/-- The hub's queue and who holds its lock, and a record: whose wakes are in flight and what
has happened. -/
structure Hub where
  queue : HubQueue
  owner : Option Nat
  legacyCaller : Bool
  inFlight : Nat → Bool
  history : List Mark

def Hub.start : Hub := ⟨⟨.start,none⟩,none,false,fun _ => false,[]⟩
def Hub.note (mark : Mark) (hub : Hub) : Hub := { hub with history := hub.history ++ [mark] }

structure Ask where
  out : Bool
  structSize : UInt32

/-- How a thread goes on: the next turn of a loop, or the caller's next calls. -/
inductive Turn where
  | done
  | drain (structSize : UInt32) (rest : List Ask)
  | scan (name : Nat)
  | calls (rest : List Ask)

abbrev Task := Prog Hub

def caller : Nat := 0

def lockQueue (name : Nat) : Task Unit :=
  .await (fun hub => hub.owner.isNone) fun hub => ((),{ hub with owner := some name })

def tryLock (name : Nat) : Task Bool :=
  .modifyGet fun hub => if hub.owner.isNone then (true,{ hub with owner := some name }) else (false,hub)

def unlock : Task Unit := .modify fun hub => { hub with owner := none }

def Hub.look (hub : Hub) : Option SessionEvent × Hub :=
  (hub.queue.next.1,{ hub with queue := hub.queue.next.2 }.note (.looked hub.queue.next.1))

def returns (handed : Option SessionEvent) (rest : List Ask) : Task Turn := do
  .modify (Hub.note (.returned handed))
  pure (.calls rest)

/-- One turn of the loop in `reldex_hub_next_event`. -/
def takeVisible (structSize : UInt32) (rest : List Ask) : Task Turn := do
  lockQueue caller
  let found ← Prog.modifyGet Hub.look
  unlock
  match found with
  | none => returns none rest
  | some event =>
    -- a caller whose header predates a kind is never given it
    if structSize.toNat < eventSize32 && introducedIn32 event then pure (.drain structSize rest)
    else returns (some event) rest

/-- A call with an `out` that cannot be filled is refused before it looks. -/
def reldexHubNextEvent (ask : Ask) (rest : List Ask) : Task Turn :=
  if ask.out && eventMinSize ≤ ask.structSize.toNat then do
    .modify fun hub => { hub with legacyCaller := ask.structSize.toNat < eventSize32 }
    takeVisible ask.structSize rest
  else pure (.calls rest)

section
variable (caps : EventCaps) (name : Nat)

def Hub.setInFlight (name : Nat) (flies : Bool) (hub : Hub) : Hub :=
  { hub with inFlight := update hub.inFlight name flies }

def entered (pushed : Pushed × Shared) : List SessionEvent :=
  if pushed.1.kept then (pushed.2.inner.queue.getLast?.map Queued.event).toList else []

def Hub.push (event : SessionEvent) (slot : Option SessionId) (hub : Hub) : Bool × Hub :=
  let pushed := hub.queue.events.push caps event slot
  (pushed.1.wake,{ hub with
    queue := { hub.queue with events := pushed.2 }
    inFlight := update hub.inFlight name pushed.1.wake
    history := hub.history ++ (entered pushed).map .queued })

def call : Task Turn := do
  .modify fun hub => (hub.setInFlight name false).note .called
  pure .done

/-- `queue.events.next()` under the lock: what the caller can see is parked, and with nothing
left the wake is over. -/
def Hub.scan (hub : Hub) : Option SessionEvent × Hub :=
  match hub.queue.events.inner.pop with
  | none => (none,hub.setInFlight name false)
  | some (queued,inner) =>
    (some queued.event,{ hub with queue :=
      ⟨{ hub.queue.events with inner := inner },
        if introducedIn32 queued.event then hub.queue.front else some queued.event⟩ })

/-- One turn of the loop in `anything_visible`. -/
def scan : Task Turn := do
  match ← Prog.modifyGet (Hub.scan name) with
  | none =>
    unlock
    pure .done
  | some event =>
    if introducedIn32 event then pure (.scan name)
    else
      unlock
      call name

/-- `Wake::wake`, with `anything_visible` up to its loop. -/
def wake : Task Turn := do
  if ← Prog.gets Hub.legacyCaller then
    -- the lock is not waited for: if it is taken the wake goes through
    if ← tryLock name then
      if ← Prog.gets fun hub => hub.queue.front.isSome then
        unlock
        call name
      else pure (.scan name)
    else call name
  else call name

/-- A worker's event, and its wake if the queue was empty. -/
def emit (event : SessionEvent) (slot : Option SessionId) : Task Turn := do
  if ← Prog.modifyGet (Hub.push caps name event slot) then wake name else pure .done

end

def Turn.resume : Turn → Option (Task Turn)
  | .done | .calls [] => none
  | .drain structSize rest => some (takeVisible structSize rest)
  | .scan name => some (Waking.scan name)
  | .calls (ask :: rest) => some (reldexHubNextEvent ask rest)

def Older (asks : List Ask) : Prop := ∀ ask ∈ asks, ask.structSize.toNat < eventSize32

inductive Starts (caps : EventCaps) : Nat → Task Turn → Prop where
  | caller (asks : List Ask) (older : Older asks) : Starts caps caller (pure (.calls asks))
  | worker (other : name ≠ caller) (event : SessionEvent) (slot : Option SessionId) :
      Starts caps name (emit caps name event slot)

abbrev Interleaved (caps : EventCaps) : Pool Hub Turn → Pool Hub Turn → Prop :=
  Relation.ReflTransGen (Pool.Step Turn.resume (Starts caps))

section

def visible (events : List SessionEvent) : List SessionEvent := events.filter fun event => !introducedIn32 event

@[simp] theorem visible_nil : visible [] = [] := rfl

@[simp] theorem visible_append (first later : List SessionEvent) :
    visible (first ++ later) = visible first ++ visible later := filter_append ..

theorem visible_hidden (hidden : introducedIn32 event = true) : visible [event] = [] := by
  simp [visible,hidden]

theorem visible_shown (shown : introducedIn32 event = false) : visible [event] = [event] := by
  simp [visible,shown]

def HubQueue.held (queue : HubQueue) : List SessionEvent :=
  queue.front.toList ++ queue.events.inner.queue.map Queued.event

theorem pop_queue {inner next : Inner} (popped : inner.pop = some (queued,next)) : inner.queue = queued :: next.queue := by
  unfold Inner.pop at popped
  split at popped
  · cases popped
  · rename_i front rest queue
    obtain ⟨rfl,rfl⟩ := Prod.mk.inj (some.inj popped)
    split <;> simp [Inner.releaseUnsolicited_rest,queue]

theorem pop_none {inner : Inner} (popped : inner.pop = none) : inner.queue = [] := by
  unfold Inner.pop at popped
  split at popped
  · assumption
  · cases popped

theorem next_held (queue : HubQueue) : queue.held = queue.next.1.toList ++ queue.next.2.held := by
  unfold HubQueue.next HubQueue.held
  cases front : queue.front with
  | some event => simp
  | none =>
    cases popped : queue.events.inner.pop with
    | none => simp [front]
    | some found =>
      obtain ⟨queued,inner⟩ := found
      simp [pop_queue popped]

theorem next_none {queue : HubQueue} (empty : queue.next.1 = none) : queue.held = [] ∧ queue.next.2.held = [] := by
  unfold HubQueue.next HubQueue.held at *
  cases front : queue.front with
  | some event => simp [front] at empty
  | none =>
    cases popped : queue.events.inner.pop with
    | none => simp [front,pop_none popped]
    | some found => simp [front,popped] at empty

theorem visible_refresh (queue : List Queued) (i : Nat) (possiblyActive : Bool) :
    visible ((queue.modify i (Inner.refresh possiblyActive)).map Queued.event) = visible (queue.map Queued.event) := by
  have same (queue : List Queued) : visible (queue.map Queued.event) =
      (queue.map fun queued => if introducedIn32 queued.event then none else some queued.event).filterMap id := by
    induction queue with
    | nil => rfl
    | cons queued rest ih =>
      rw [visible] at ih
      cases hidden : introducedIn32 queued.event <;> simp [visible,hidden,ih]
  rw [same,same,Exchange.map_refresh]
  intro queued
  obtain ⟨event,slot⟩ := queued
  cases event <;> rfl

variable (caps : EventCaps) (event : SessionEvent) (slot : Option SessionId) (shared : Shared)

theorem push_wake :
    (shared.push caps event slot).1.wake = ((shared.push caps event slot).1.kept && shared.inner.queue.isEmpty) := by
  unfold Shared.push
  split
  · rfl
  · dsimp only
    split
    · split <;> simp [Pushed.discarded]
    · simp

theorem push_visible : visible ((shared.push caps event slot).2.inner.queue.map Queued.event) =
      visible (shared.inner.queue.map Queued.event) ++ visible (entered (shared.push caps event slot)) := by
  have outcome := Exchange.push_outcome caps event slot shared
  unfold entered
  generalize (shared.push caps event slot).1.kept = kept at outcome ⊢
  cases outcome with
  | kept alike grown => simp [grown]
  | folded queue => simp [queue,visible_refresh]
  | unchanged queue => simp [queue]

/-- Only a push onto an empty queue asks for a wake, and it does if it leaves an event there. -/
theorem push_wakes (filled : (shared.push caps event slot).2.inner.queue ≠ []) (empty : shared.inner.queue = []) :
    (shared.push caps event slot).1.wake = true := by
  have outcome := Exchange.push_outcome caps event slot shared
  rw [push_wake,empty]
  generalize (shared.push caps event slot).1.kept = kept at outcome ⊢
  cases outcome with
  | kept => rfl
  | folded queue => simp [queue,empty] at filled
  | unchanged queue => simp [queue,empty] at filled

end

section

/-- What a history says of the caller's last look: whether it found nothing, what the caller
can see was queued since, whether the callback was invoked since, and the event that is taken
out but not yet returned. -/
structure Watch where
  empty : Bool
  since : List SessionEvent
  called : Bool
  hand : List SessionEvent

def Watch.start : Watch := ⟨false,[],false,[]⟩

def Watch.note (watch : Watch) : Mark → Watch
  | .queued event => { watch with since := watch.since ++ visible [event] }
  | .looked found => ⟨found.isNone,[],false,visible found.toList⟩
  | .returned _ => { watch with hand := [] }
  | .called => { watch with called := true }

def watch (history : List Mark) : Watch := history.foldl Watch.note .start

/-- The events that went into the queue, and those that were handed to the caller. -/
def Mark.entered : Mark → Option SessionEvent
  | .queued event => some event
  | _ => none

def Mark.delivered : Mark → Option SessionEvent
  | .returned handed => handed
  | _ => none

def queuedIn (history : List Mark) : List SessionEvent := history.filterMap Mark.entered
def deliveredIn (history : List Mark) : List SessionEvent := history.filterMap Mark.delivered

variable {history : List Mark}

@[simp] theorem watch_concat (mark : Mark) : watch (history ++ [mark]) = (watch history).note mark := by
  simp [watch]

@[simp] theorem queuedIn_append (more : List Mark) : queuedIn (history ++ more) = queuedIn history ++ queuedIn more :=
  filterMap_append ..

@[simp] theorem deliveredIn_append (more : List Mark) :
    deliveredIn (history ++ more) = deliveredIn history ++ deliveredIn more := filterMap_append ..

variable (found : Option SessionEvent)

@[simp] theorem queuedIn_looked : queuedIn [.looked found] = [] := rfl

variable (handed : Option SessionEvent)

@[simp] theorem queuedIn_returned : queuedIn [.returned handed] = [] := rfl

@[simp] theorem queuedIn_called : queuedIn [.called] = [] := rfl

@[simp] theorem deliveredIn_looked : deliveredIn [.looked found] = [] := rfl

@[simp] theorem deliveredIn_returned : deliveredIn [.returned handed] = handed.toList := by
  cases handed <;> rfl

@[simp] theorem deliveredIn_called : deliveredIn [.called] = [] := rfl

variable (events : List SessionEvent)

@[simp] theorem queuedIn_queued : queuedIn (events.map .queued) = events := by
  simp [queuedIn,Mark.entered,comp_def]

@[simp] theorem deliveredIn_queued : deliveredIn (events.map .queued) = [] := by
  simp [deliveredIn,Mark.delivered]

theorem watch_queued : watch (history ++ events.map .queued) =
    { watch history with since := (watch history).since ++ visible events } := by
  induction events generalizing history with
  | nil => simp
  | cons event rest ih =>
    rw [map_cons,append_cons,ih,watch_concat,← singleton_append (l := rest),visible_append]
    simp [Watch.note]

end

section

inductive Moves (caps : EventCaps) (name : Nat) : Hub → Hub → Prop where
  | push (event : SessionEvent) (slot : Option SessionId) (quiet : hub.inFlight name = false) :
      Moves caps name hub (hub.push caps name event slot).2
  | flag (legacy : Bool) : Moves caps name hub { hub with legacyCaller := legacy }
  | lock (free : hub.owner = none) : Moves caps name hub { hub with owner := some name }
  | unlock (own : hub.owner = some name) : Moves caps name hub { hub with owner := none }
  | look (own : hub.owner = some name) (self : name = caller) (free : (watch hub.history).hand = []) :
      Moves caps name hub hub.look.2
  | returned (handed : Option SessionEvent) (self : name = caller) (held : (watch hub.history).hand = handed.toList)
      (empty : handed = none → (watch hub.history).empty = true) : Moves caps name hub (hub.note (.returned handed))
  | scan (own : hub.owner = some name) (other : name ≠ caller) (free : hub.queue.front = none)
      (awake : hub.inFlight name = true) : Moves caps name hub (hub.scan name).2
  | call (other : name ≠ caller) : Moves caps name hub ((hub.setInFlight name false).note .called)
  | rest : Moves caps name hub hub

variable {caps : EventCaps} {name other : Nat} {hub next : Hub}

structure Untouched (name : Nat) (hub next : Hub) : Prop where
  inFlight : next.inFlight name = hub.inFlight name
  own : hub.owner = some name → next.owner = some name ∧ next.queue.front = hub.queue.front
  foreign : hub.owner ≠ some name → next.owner ≠ some name
  empty : name = caller → (watch next.history).empty = (watch hub.history).empty
  hand : name = caller → (watch next.history).hand = (watch hub.history).hand

theorem Moves.untouched (moves : Moves caps other hub next) (different : other ≠ name) : Untouched name hub next := by
  have apart : ∀ flies, update hub.inFlight other flies name = hub.inFlight name :=
    fun flies => update_of_ne (Ne.symm different) _ _
  have foreign : hub.owner = some other → hub.owner = some name → False :=
    fun theirs ours => different (some.inj (theirs.symm.trans ours))
  cases moves with
  | push event slot worker =>
    refine ⟨apart _,fun own => ⟨own,rfl⟩,id,fun _ => ?_,fun _ => ?_⟩ <;> simp [Hub.push,watch_queued]
  | flag legacy => exact ⟨rfl,fun own => ⟨own,rfl⟩,id,fun _ => rfl,fun _ => rfl⟩
  | lock free =>
    refine ⟨rfl,fun own => ?_,fun _ => ?_,fun _ => rfl,fun _ => rfl⟩
    · simp [free] at own
    · simpa using different
  | unlock theirs => exact ⟨rfl,fun ours => (foreign theirs ours).elim,fun _ => by simp,fun _ => rfl,fun _ => rfl⟩
  | look theirs self free =>
    exact ⟨rfl,fun ours => (foreign theirs ours).elim,id,fun ours => absurd (self.trans ours.symm) different,
      fun ours => absurd (self.trans ours.symm) different⟩
  | returned handed self held empty =>
    exact ⟨rfl,fun own => ⟨own,rfl⟩,id,fun ours => absurd (self.trans ours.symm) different,
      fun ours => absurd (self.trans ours.symm) different⟩
  | scan theirs worker free awake =>
    unfold Hub.scan
    split
    · exact ⟨apart _,fun ours => (foreign theirs ours).elim,id,fun _ => rfl,fun _ => rfl⟩
    · exact ⟨rfl,fun ours => (foreign theirs ours).elim,id,fun _ => rfl,fun _ => rfl⟩
  | call worker =>
    refine ⟨apart _,fun own => ⟨own,rfl⟩,id,fun _ => ?_,fun _ => ?_⟩ <;> simp [Hub.note,Hub.setInFlight,Watch.note]
  | rest => exact ⟨rfl,fun own => ⟨own,rfl⟩,id,fun _ => rfl,fun _ => rfl⟩

structure Sound (hub : Hub) : Prop where
  stream : visible (queuedIn hub.history) =
    deliveredIn hub.history ++ (watch hub.history).hand ++ visible hub.queue.held
  since : (watch hub.history).empty = true → visible hub.queue.held = (watch hub.history).since
  alert : (watch hub.history).empty = true → hub.queue.held ≠ [] →
    (watch hub.history).called = true ∨ ∃ name, hub.inFlight name = true
  returned : Warranted (fun before mark => mark = .returned none → (watch before).empty = true) hub.history

theorem start_sound : Sound .start := ⟨rfl,fun _ => rfl,fun found => absurd found (by simp [Hub.start,watch,Watch.start]),.nil⟩

section
variable (sound : Sound hub)
include sound

theorem Sound.of_same (queue : next.queue = hub.queue) (flights : next.inFlight = hub.inFlight)
    (history : next.history = hub.history) : Sound next := by
  obtain ⟨stream,since,alert,returned⟩ := sound
  constructor <;> rw [history]
  · rwa [queue]
  · rwa [queue]
  · rwa [queue,flights]
  · exact returned

theorem Sound.push (event : SessionEvent) (slot : Option SessionId)
    (quiet : hub.inFlight name = false) : Sound (hub.push caps name event slot).2 := by
  have held : visible (hub.push caps name event slot).2.queue.held =
      visible hub.queue.held ++ visible (entered (hub.queue.events.push caps event slot)) := by
    simp [HubQueue.held,Hub.push,push_visible caps event slot hub.queue.events]
  have history : (hub.push caps name event slot).2.history =
      hub.history ++ (entered (hub.queue.events.push caps event slot)).map .queued := rfl
  constructor
  · rw [held,history,watch_queued]
    simp [sound.stream]
  · rw [held,history,watch_queued]
    exact fun empty => by rw [sound.since empty]
  · rw [history,watch_queued]
    intro empty filled
    by_cases before : hub.queue.held = []
    · -- the first event of an empty queue asks for the wake
      obtain ⟨front,queue⟩ : hub.queue.front = none ∧ hub.queue.events.inner.queue = [] := by
        simpa [HubQueue.held] using before
      refine .inr ⟨name,?_⟩
      have added : (hub.queue.events.push caps event slot).2.inner.queue ≠ [] := by
        simpa [HubQueue.held,Hub.push,front] using filled
      simpa [Hub.push] using push_wakes caps event slot hub.queue.events added queue
    · refine (sound.alert empty before).imp_right ?_
      rintro ⟨other,flies⟩
      have different : other ≠ name := by
        rintro rfl
        simp [quiet] at flies
      exact ⟨other,by simpa [Hub.push,different] using flies⟩
  · rw [history]
    refine sound.returned.append _ fun before mark member same => ?_
    simp [same] at member

theorem Sound.look (free : (watch hub.history).hand = []) : Sound hub.look.2 := by
  have held := next_held hub.queue
  have history : hub.look.2.history = hub.history ++ [.looked hub.queue.next.1] := rfl
  have queue : hub.look.2.queue = hub.queue.next.2 := rfl
  have nothing : (watch hub.look.2.history).empty = true → hub.look.2.queue.held = [] := by
    intro empty
    have empty : hub.queue.next.1 = none := by simpa [history,Watch.note] using empty
    exact (next_none empty).2
  constructor
  · have stream := sound.stream
    rw [held,free] at stream
    rw [history,queue]
    simpa [Watch.note] using stream
  · intro empty
    rw [nothing empty,history]
    simp [Watch.note]
  · exact fun empty filled => absurd (nothing empty) filled
  · exact sound.returned.concat nofun

theorem Sound.returns (handed : Option SessionEvent) (held : (watch hub.history).hand = handed.toList)
    (empty : handed = none → (watch hub.history).empty = true) : Sound (hub.note (.returned handed)) := by
  have history : (hub.note (.returned handed)).history = hub.history ++ [.returned handed] := rfl
  have queue : (hub.note (.returned handed)).queue = hub.queue := rfl
  constructor
  · have stream := sound.stream
    rw [held] at stream
    rw [history,queue]
    simpa [Watch.note] using stream
  · simpa [history,queue,Watch.note] using sound.since
  · rw [history,watch_concat]
    exact sound.alert
  · refine sound.returned.concat fun same => empty ?_
    simpa using same

theorem Sound.scan (free : hub.queue.front = none) (awake : hub.inFlight name = true) : Sound (hub.scan name).2 := by
  unfold Hub.scan
  cases popped : hub.queue.events.inner.pop with
  | none =>
    have nothing : hub.queue.held = [] := by simp [HubQueue.held,free,pop_none popped]
    exact ⟨sound.stream,sound.since,fun _ filled => absurd nothing filled,sound.returned⟩
  | some found =>
    obtain ⟨queued,inner⟩ := found
    have parked : visible (HubQueue.held ⟨{ hub.queue.events with inner := inner },
        if introducedIn32 queued.event then hub.queue.front else some queued.event⟩) = visible hub.queue.held := by
      cases hidden : introducedIn32 queued.event <;> simp [HubQueue.held,free,pop_queue popped,visible,hidden]
    constructor
    · rw [parked]
      exact sound.stream
    · rw [parked]
      exact sound.since
    · exact fun _ _ => .inr ⟨name,awake⟩
    · exact sound.returned

theorem Sound.call : Sound ((hub.setInFlight name false).note .called) := by
  have history : ((hub.setInFlight name false).note .called).history = hub.history ++ [.called] := rfl
  have queue : ((hub.setInFlight name false).note .called).queue = hub.queue := rfl
  constructor
  · have stream := sound.stream
    rw [history,queue]
    simpa [Watch.note] using stream
  · simpa [history,queue,Watch.note] using sound.since
  · intro _ _
    simp [history,Watch.note]
  · exact sound.returned.concat nofun

end

theorem Moves.sound (moves : Moves caps name hub next) (sound : Sound hub) : Sound next := by
  cases moves with
  | push event slot quiet => exact sound.push event slot quiet
  | flag legacy => exact sound.of_same rfl rfl rfl
  | lock free => exact sound.of_same rfl rfl rfl
  | unlock own => exact sound.of_same rfl rfl rfl
  | look own self free => exact sound.look free
  | returned handed self held empty => exact sound.returns handed held empty
  | scan own other free awake => exact sound.scan free awake
  | call other => exact sound.call
  | rest => exact sound

end

section
variable {caps : EventCaps} {name : Nat}

/-- The caller is in no drain: it does not hold the lock, and what it took out it has returned. -/
def Outside (hub : Hub) : Prop := hub.owner ≠ some caller ∧ (watch hub.history).hand = []

def Scanning (name : Nat) (hub : Hub) : Prop :=
  hub.owner = some name ∧ hub.queue.front = none ∧ hub.inFlight name = true

def Stands (name : Nat) : Turn → Hub → Prop
  | .done,hub => name ≠ caller ∧ hub.inFlight name = false
  | .scan named,hub => (named = name ∧ name ≠ caller) ∧ Scanning name hub
  | .drain structSize rest,hub => (name = caller ∧ structSize.toNat < eventSize32 ∧ Older rest) ∧ Outside hub
  | .calls rest,hub => (name = caller ∧ Older rest) ∧ Outside hub

def Unused (name : Nat) (hub : Hub) : Prop :=
  hub.inFlight name = false ∧ hub.owner ≠ some name ∧ (name = caller → (watch hub.history).hand = [])

theorem stable_of (kept : ∀ hub next, Untouched name hub next → fact hub → fact next) :
    Prog.Stable (Moves caps) name fact :=
  fun _ hub next different moves holds => kept hub next (moves.untouched different) holds

theorem flight_stable (flies : Bool) : Prog.Stable (Moves caps) name fun hub => hub.inFlight name = flies :=
  stable_of fun _ _ same holds => same.inFlight.trans holds

theorem owned_stable : Prog.Stable (Moves caps) name fun hub => hub.owner = some name :=
  stable_of fun _ _ same holds => (same.own holds).1

theorem foreign_stable : Prog.Stable (Moves caps) name fun hub => hub.owner ≠ some name :=
  stable_of fun _ _ same holds => same.foreign holds

theorem scanning_stable : Prog.Stable (Moves caps) name (Scanning name) :=
  stable_of fun _ _ same holds => ⟨(same.own holds.1).1,(same.own holds.1).2.trans holds.2.1,same.inFlight.trans holds.2.2⟩

theorem hand_stable (events : List SessionEvent) :
    Prog.Stable (Moves caps) caller fun hub => (watch hub.history).hand = events :=
  stable_of fun _ _ same holds => (same.hand rfl).trans holds

theorem empty_stable (empty : Bool) : Prog.Stable (Moves caps) caller fun hub => (watch hub.history).empty = empty :=
  stable_of fun _ _ same holds => (same.empty rfl).trans holds

theorem outside_stable : Prog.Stable (Moves caps) caller Outside := foreign_stable.and (hand_stable [])

theorem unused_stable (name : Nat) : Prog.Stable (Moves caps) name (Unused name) :=
  stable_of fun _ _ same holds =>
    ⟨same.inFlight.trans holds.1,same.foreign holds.2.1,fun self => (same.hand self).trans (holds.2.2 self)⟩

/-- Nothing is said of a thread that waits. -/
abbrev Keeps (caps : EventCaps) (name : Nat) (pre : Hub → Prop) (p : Task α) (post : α → Hub → Prop) : Prop :=
  Prog.Spec (Moves caps) name (fun _ => True) pre p post

theorem call_keeps (other : name ≠ caller) : Keeps caps name (fun _ => True) (call name) (Stands name) := by
  have calls : Keeps caps name (fun _ => True) (.modify fun hub => (hub.setInFlight name false).note .called)
      fun _ hub => hub.inFlight name = false := by
    refine .modify (fun _ _ _ _ _ holds => holds) (flight_stable false) fun hub _ => ⟨.call other,?_⟩
    simp [Hub.note,Hub.setInFlight]
  exact calls.bind fun _ => .pure (flight_stable false) fun hub flies => ⟨other,flies⟩

theorem unlock_keeps (stable : Prog.Stable (Moves caps) name kept)
    (spared : ∀ hub, kept hub → kept { hub with owner := none }) :
    Keeps caps name (fun hub => hub.owner = some name ∧ kept hub) unlock
      fun _ hub => hub.owner ≠ some name ∧ kept hub := by
  refine .modify (owned_stable.and stable) (foreign_stable.and stable) fun hub holds => ⟨.unlock holds.1,?_⟩
  exact ⟨by simp,spared hub holds.2⟩

theorem unlock_call_keeps (other : name ≠ caller) : Keeps caps name (fun hub => hub.owner = some name)
    (unlock >>= fun _ => call name) (Stands name) := by
  have freed : Keeps caps name (fun hub => hub.owner = some name ∧ True) unlock fun _ hub => hub.owner ≠ some name ∧ True :=
    unlock_keeps (fun _ _ _ _ _ holds => holds) fun _ holds => holds
  exact (freed.from fun hub own => ⟨own,trivial⟩).bind fun _ => (call_keeps other).from fun _ _ => trivial

def Scanned (name : Nat) (found : Option SessionEvent) (hub : Hub) : Prop :=
  hub.owner = some name ∧ match found with
    | none => hub.inFlight name = false
    | some event => hub.inFlight name = true ∧ (introducedIn32 event = true → hub.queue.front = none)

variable (found : Option SessionEvent)

theorem scanned_stable : Prog.Stable (Moves caps) name (Scanned name found) := by
  refine stable_of fun hub next same holds => ⟨(same.own holds.1).1,?_⟩
  cases found with
  | none => exact same.inFlight.trans holds.2
  | some event =>
    exact ⟨same.inFlight.trans holds.2.1,fun hidden => (same.own holds.1).2.trans (holds.2.2 hidden)⟩

theorem scanned (scanning : Scanning name hub) : Scanned name (hub.scan name).1 (hub.scan name).2 := by
  obtain ⟨own,free,awake⟩ := scanning
  unfold Hub.scan
  split
  · exact ⟨own,by simp [Hub.setInFlight]⟩
  · refine ⟨own,awake,fun hidden => ?_⟩
    simp [hidden,free]

theorem scan_keeps (other : name ≠ caller) : Keeps caps name (Scanning name) (scan name) (Stands name) := by
  have first : Keeps caps name (Scanning name) (.modifyGet (Hub.scan name)) (Scanned name) :=
    .modifyGet scanning_stable scanned_stable fun hub scanning =>
      ⟨.scan scanning.1 other scanning.2.1 scanning.2.2,scanned scanning⟩
  refine first.bind fun found => ?_
  cases found with
  | none =>
    refine (unlock_keeps (flight_stable false) fun _ holds => holds).bind fun _ => ?_
    exact .pure (foreign_stable.and (flight_stable false)) fun hub holds => ⟨other,holds.2⟩
  | some event =>
    cases hidden : introducedIn32 event with
    | true =>
      simp only [hidden,if_true]
      exact .pure (scanned_stable (some event)) fun hub holds => ⟨⟨rfl,other⟩,holds.1,holds.2.2 hidden,holds.2.1⟩
    | false =>
      simp only [hidden,Bool.false_eq_true,if_false]
      exact (unlock_call_keeps other).from fun hub holds => holds.1

def Tried (name : Nat) (taken : Bool) (hub : Hub) : Prop :=
  hub.inFlight name = true ∧ (taken = true → hub.owner = some name)

theorem tried_stable (taken : Bool) : Prog.Stable (Moves caps) name (Tried name taken) :=
  stable_of fun _ _ same holds => ⟨same.inFlight.trans holds.1,fun took => (same.own (holds.2 took)).1⟩

theorem tryLock_keeps : Keeps caps name (fun hub => hub.inFlight name = true) (tryLock name) (Tried name) := by
  refine .modifyGet (flight_stable true) tried_stable fun hub flies => ?_
  split
  · rename_i free
    exact ⟨.lock (isNone_iff_eq_none.mp free),flies,fun _ => rfl⟩
  · exact ⟨.rest,flies,nofun⟩

theorem wake_keeps (other : name ≠ caller) :
    Keeps caps name (fun hub => hub.inFlight name = true) (wake name) (Stands name) := by
  have reads : Keeps caps name (fun hub => hub.inFlight name = true) (.gets Hub.legacyCaller)
      fun _ hub => hub.inFlight name = true :=
    .gets (flight_stable true) (fun _ => flight_stable true) fun hub flies => ⟨.rest,flies⟩
  have calls : ∀ {pre : Hub → Prop}, Keeps caps name pre (call name) (Stands name) :=
    (call_keeps other).from fun _ _ => trivial
  refine reads.bind fun legacy => ?_
  split
  · refine tryLock_keeps.bind fun taken => ?_
    cases taken with
    | false => exact calls
    | true =>
      have parked : Keeps caps name (Tried name true) (.gets fun hub => hub.queue.front.isSome) fun filled hub =>
          Tried name true hub ∧ (filled = false → hub.queue.front = none) := by
        refine .gets (tried_stable true) (fun filled => ?_) fun hub holds => ⟨.rest,holds,fun free => by simpa using free⟩
        refine stable_of fun hub next same holds => ⟨?_,fun free => ?_⟩
        · exact ⟨same.inFlight.trans holds.1.1,fun took => (same.own (holds.1.2 took)).1⟩
        · exact (same.own (holds.1.2 rfl)).2.trans (holds.2 free)
      refine parked.bind fun filled => ?_
      cases filled with
      | true => exact (unlock_call_keeps other).from fun hub holds => holds.1.2 rfl
      | false =>
        refine Prog.Spec.from (.pure scanning_stable fun hub scanning => ⟨⟨rfl,other⟩,scanning⟩) fun hub holds => ?_
        exact ⟨holds.1.2 rfl,holds.2 rfl,holds.1.1⟩
  · exact calls

theorem emit_keeps (other : name ≠ caller) (event : SessionEvent) (slot : Option SessionId) :
    Keeps caps name (fun hub => hub.inFlight name = false) (emit caps name event slot) (Stands name) := by
  have pushes : Keeps caps name (fun hub => hub.inFlight name = false) (.modifyGet (Hub.push caps name event slot))
      fun wakes hub => hub.inFlight name = wakes := by
    refine .modifyGet (flight_stable false) flight_stable fun hub quiet => ⟨.push event slot quiet,?_⟩
    simp [Hub.push]
  refine pushes.bind fun wakes => ?_
  cases wakes with
  | true => exact wake_keeps other
  | false => exact .pure (flight_stable false) fun hub quiet => ⟨other,quiet⟩

/-- The caller has looked, and has still to return what it took out. -/
def Looked (found : Option SessionEvent) (hub : Hub) : Prop :=
  (watch hub.history).hand = visible found.toList ∧ (watch hub.history).empty = found.isNone

theorem looked_stable : Prog.Stable (Moves caps) caller (Looked found) :=
  (hand_stable _).and (empty_stable _)

theorem look_keeps : Keeps caps caller (fun hub => hub.owner = some caller ∧ (watch hub.history).hand = [])
    (.modifyGet Hub.look) fun found hub => hub.owner = some caller ∧ Looked found hub := by
  refine .modifyGet (owned_stable.and (hand_stable [])) (fun found => owned_stable.and (looked_stable found)) ?_
  intro hub holds
  refine ⟨.look holds.1 rfl holds.2,holds.1,?_⟩
  simp [Looked,Hub.look,Hub.note,Watch.note]

theorem returns_keeps (handed : Option SessionEvent) (older : Older rest) :
    Keeps caps caller (fun hub => hub.owner ≠ some caller ∧ (watch hub.history).hand = handed.toList ∧
      (handed = none → (watch hub.history).empty = true)) (returns handed rest) (Stands caller) := by
  have notes : Keeps caps caller (fun hub => hub.owner ≠ some caller ∧ (watch hub.history).hand = handed.toList ∧
      (handed = none → (watch hub.history).empty = true)) (.modify (Hub.note (.returned handed))) fun _ => Outside := by
    refine .modify ?_ outside_stable fun hub holds => ⟨.returned handed rfl holds.2.1 holds.2.2,holds.1,?_⟩
    · refine foreign_stable.and ((hand_stable _).and ?_)
      exact stable_of fun _ _ same holds none => (same.empty rfl).trans (holds none)
    · simp [Hub.note,Watch.note]
  exact notes.bind fun _ => .pure outside_stable fun hub outside => ⟨⟨rfl,older⟩,outside⟩

theorem takeVisible_keeps (below : structSize.toNat < eventSize32) (older : Older rest) :
    Keeps caps caller Outside (takeVisible structSize rest) (Stands caller) := by
  have locks : Keeps caps caller Outside (lockQueue caller) fun _ hub =>
      hub.owner = some caller ∧ (watch hub.history).hand = [] := by
    refine .await outside_stable (fun _ => owned_stable.and (hand_stable [])) (fun _ _ _ => trivial) ?_
    intro hub outside free
    exact ⟨.lock (isNone_iff_eq_none.mp free),rfl,outside.2⟩
  refine locks.bind fun _ => look_keeps.bind fun found => ?_
  refine (unlock_keeps (looked_stable found) fun _ holds => holds).bind fun _ => ?_
  cases found with
  | none => exact (returns_keeps none older).from fun hub holds => ⟨holds.1,holds.2.1,fun _ => holds.2.2⟩
  | some event =>
    cases hidden : introducedIn32 event with
    | true =>
      simp only [hidden,below,decide_true,Bool.and_self,if_true]
      refine Prog.Spec.from (.pure outside_stable fun hub outside => ⟨⟨rfl,below,older⟩,outside⟩) fun hub holds => ?_
      exact ⟨holds.1,holds.2.1.trans (visible_hidden hidden)⟩
    | false =>
      simp only [hidden,Bool.and_false,Bool.false_eq_true,if_false]
      refine (returns_keeps (some event) older).from fun hub holds => ⟨holds.1,?_,by simp⟩
      exact holds.2.1.trans (visible_shown hidden)

theorem nextEvent_keeps (ask : Ask) (older : Older (ask :: rest)) :
    Keeps caps caller Outside (reldexHubNextEvent ask rest) (Stands caller) := by
  have later : Older rest := fun other member => older other (.tail _ member)
  unfold reldexHubNextEvent
  split
  · have flags : Keeps caps caller Outside
        (.modify fun hub => { hub with legacyCaller := ask.structSize.toNat < eventSize32 }) fun _ => Outside :=
      .modify outside_stable outside_stable fun hub outside => ⟨.flag _,outside⟩
    exact flags.bind fun _ => takeVisible_keeps (older ask (.head _)) later
  · exact .pure outside_stable fun hub outside => ⟨⟨rfl,later⟩,outside⟩

theorem resume_keeps (name : Nat) (turn : Turn) (p : Task Turn) (again : turn.resume = some p) :
    Keeps caps name (Stands name turn) p (Stands name) := by
  cases turn with
  | done => cases again
  | drain structSize rest =>
    obtain rfl := some.inj again
    refine .given ?_
    rintro ⟨rfl,below,older⟩
    exact takeVisible_keeps below older
  | scan named =>
    obtain rfl := some.inj again
    refine .given ?_
    rintro ⟨rfl,other⟩
    exact scan_keeps other
  | calls rest =>
    cases rest with
    | nil => cases again
    | cons ask rest =>
      obtain rfl := some.inj again
      refine .given ?_
      rintro ⟨rfl,older⟩
      exact nextEvent_keeps ask older

theorem start_keeps (name : Nat) (p : Task Turn) (starting : Starts caps name p) :
    Keeps caps name (fun hub => Sound hub ∧ Unused name hub) p (Stands name) := by
  cases starting with
  | caller asks older =>
    refine Prog.Spec.from (.pure outside_stable fun hub outside => ⟨⟨rfl,older⟩,outside⟩) fun hub holds => ?_
    exact ⟨holds.2.2.1,holds.2.2.2 rfl⟩
  | worker other event slot => exact (emit_keeps other event slot).from fun hub holds => holds.2.1

def protocol (caps : EventCaps) : Pool.Protocol Turn.resume (Starts caps) :=
  .ofGuarantees (Moves caps) (fun _ _ => True) Stands Unused Sound (fun _ _ _ sound moves => moves.sound sound)
    unused_stable resume_keeps start_keeps

theorem follows (run : Interleaved caps ⟨.start,fun _ => none⟩ pool) : Pool.Follows (protocol caps) pool := by
  have start : Pool.Follows (protocol caps) ⟨.start,fun _ => none⟩ :=
    ⟨start_sound,by simp,fun name _ => ⟨rfl,by simp [Hub.start],fun _ => rfl⟩⟩
  exact start.reachable run

end

section
variable {caps : EventCaps} {pool : Pool Hub Turn} {history after : List Mark}

theorem watch_since (before : List Mark) (unlooked : ∀ found, .looked found ∉ after) :
    (watch (before ++ .looked none :: after)).empty = true ∧
    (watch (before ++ .looked none :: after)).since = visible (queuedIn after) ∧
    ((watch (before ++ .looked none :: after)).called = true → .called ∈ after) := by
  induction after using List.reverseRecOn with
  | nil => simp [Watch.note,queuedIn]
  | append_singleton after mark ih =>
    obtain ⟨empty,since,called⟩ := ih fun found member => unlooked found (mem_append_left _ member)
    rw [← cons_append,← append_assoc,watch_concat]
    cases mark with
    | queued event => exact ⟨empty,by simp [Watch.note,since,queuedIn,Mark.entered],fun told => by simp [called told]⟩
    | looked found => exact absurd (mem_append_right _ (.head _)) (unlooked found)
    | returned handed => exact ⟨empty,by simp [Watch.note,since],fun told => by simp [called told]⟩
    | called => exact ⟨empty,by simp [Watch.note,since],fun _ => by simp⟩

theorem looked_of_empty (empty : (watch history).empty = true) :
    ∃ before after, history = before ++ .looked none :: after ∧ ∀ found, .looked found ∉ after := by
  induction history using List.reverseRecOn with
  | nil => cases empty
  | append_singleton history mark ih =>
    rw [watch_concat] at empty
    have goes (same : (watch history).empty = true) (plain : ∀ found, .looked found ≠ mark) :
        ∃ before after, history ++ [mark] = before ++ .looked none :: after ∧ ∀ found, .looked found ∉ after := by
      obtain ⟨before,after,rfl,unlooked⟩ := ih same
      exact ⟨before,after ++ [mark],by simp,by simpa using fun found => ⟨unlooked found,plain found⟩⟩
    cases mark with
    | queued event => exact goes empty (by simp)
    | looked found =>
      obtain rfl : found = none := by simpa [Watch.note] using empty
      exact ⟨history,[],rfl,by simp⟩
    | returned handed => exact goes empty (by simp)
    | called => exact goes empty (by simp)

theorem flight_thread (run : Interleaved caps ⟨.start,fun _ => none⟩ pool) (flies : pool.state.inFlight name = true) :
    ∃ p, pool.threads name = some p ∧ p ≠ .ret .done := by
  obtain ⟨_,meets,unused⟩ := follows run
  cases thread : pool.threads name with
  | none =>
    have quiet := (unused name thread).1
    simp [quiet] at flies
  | some p =>
    refine ⟨p,rfl,?_⟩
    rintro rfl
    have stands : Stands name .done pool.state := meets name _ thread _ .refl
    have quiet : pool.state.inFlight name = false := stands.2
    simp [quiet] at flies

/-- The caller is given what went into the queue and it can see, in order: handed over, in the
hand of the call, or still held. Once a look has found nothing and something that it can see
is queued, the callback has been invoked since that look or its wake is in flight. -/
theorem older_caller_misses_nothing (run : Interleaved caps ⟨.start,fun _ => none⟩ pool) :
    visible (queuedIn pool.state.history) =
      deliveredIn pool.state.history ++ (watch pool.state.history).hand ++ visible pool.state.queue.held ∧
    (∀ rest, pool.threads caller = some (.ret (.calls rest)) → (watch pool.state.history).hand = []) ∧
    (∀ before after, pool.state.history = before ++ .looked none :: after → (∀ found, .looked found ∉ after) →
      (∃ event, .queued event ∈ after ∧ introducedIn32 event = false) → .called ∈ after ∨
      ∃ name p, pool.state.inFlight name = true ∧ pool.threads name = some p ∧ p ≠ .ret .done) ∧
    ∀ before after, pool.state.history = before ++ .returned none :: after →
      ∃ earlier between, before = earlier ++ .looked none :: between ∧ ∀ found, .looked found ∉ between := by
  have sound : Sound pool.state := (follows run).1
  refine ⟨sound.stream,fun rest thread => ?_,?_,fun before after whole =>
    looked_of_empty (sound.returned before _ after whole rfl)⟩
  · have stands : Stands caller (.calls rest) pool.state := (follows run).2.1 caller _ thread _ .refl
    exact stands.2.2
  rintro before after whole unlooked ⟨event,queued,shown⟩
  obtain ⟨empty,since,called⟩ := watch_since before unlooked
  rw [← whole] at empty since called
  have waits : event ∈ visible pool.state.queue.held := by
    rw [sound.since empty,since]
    refine mem_filter.mpr ⟨mem_filterMap.mpr ⟨_,queued,rfl⟩,by simp [shown]⟩
  have filled : pool.state.queue.held ≠ [] := by
    rintro none
    simp [none] at waits
  refine (sound.alert empty filled).imp called ?_
  rintro ⟨name,flies⟩
  obtain ⟨p,thread,unended⟩ := flight_thread run flies
  exact ⟨name,p,flies,thread,unended⟩

end

def single : EventCaps := ⟨⟨1,one_nonzero⟩⟩
def old : Ask := ⟨true,120⟩

theorem old_older : Older [old] := by
  intro ask member
  obtain rfl := mem_singleton.mp member
  decide

def begunPool : Pool Hub Turn :=
  ⟨.start,update (update (fun _ => none) caller (some (pure (.calls [old])))) caller
    (some (reldexHubNextEvent old []))⟩

def lookingPool : Pool Hub Turn := ((begunPool.acted caller).acted caller).acted caller

def wokenPool : Pool Hub Turn := lookingPool.ran 1 (emit single 1 (.executing 1 1) none)
def returnedPool : Pool Hub Turn := wokenPool.ran caller (unlock >>= fun _ => returns none [])

def queuedPool : Pool Hub Turn := returnedPool.ran 2 (emit single 2 (.opened 1 1) none)

theorem lookingPool_run : Interleaved single ⟨.start,fun _ => none⟩ lookingPool := by
  have begun : Interleaved single ⟨.start,fun _ => none⟩ begunPool :=
    .tail (.single (.begins _ caller rfl (.caller [old] old_older))) (.resumes _ caller rfl rfl)
  exact ((begun.tail (Pool.acts_once caller rfl rfl)).tail (Pool.acts_once caller rfl rfl)).tail (Pool.acts_once caller rfl rfl)

theorem queuedPool_run : Interleaved single ⟨.start,fun _ => none⟩ queuedPool := by
  have woken : Interleaved single ⟨.start,fun _ => none⟩ wokenPool :=
    lookingPool_run.trans (Pool.begins_alone 1 rfl (.worker (by decide) (.executing 1 1) none) rfl)
  have returned : Interleaved single ⟨.start,fun _ => none⟩ returnedPool :=
    woken.trans (Pool.alone caller rfl rfl)
  exact returned.trans (Pool.begins_alone 2 rfl (.worker (by decide) (.opened 1 1) none) rfl)

theorem queuedPool_quiet (name : Nat) : queuedPool.state.inFlight name = false := by
  have flights : queuedPool.state.inFlight =
    update (update (update (fun _ => false) 1 true) 1 false) 2 false := rfl
  rw [flights]
  simp [update_apply]

/-- The callback is invoked between a look that finds nothing and the return of its call, and
not again for what is queued after the return. -/
theorem wake_before_return : Interleaved single ⟨.start,fun _ => none⟩ queuedPool ∧ queuedPool.state.history =
      [.looked none,.queued (.executing 1 1),.called,.returned none] ++ [.queued (.opened 1 1)] ∧
    introducedIn32 (.opened 1 1) = false ∧ queuedPool.threads caller = some (.ret (.calls [])) ∧
    ∀ name, queuedPool.state.inFlight name = false := by
  exact ⟨queuedPool_run,rfl,rfl,rfl,queuedPool_quiet⟩

/-- It was invoked after the look, though, and what it can see is still held for the caller. -/
theorem older_caller_is_called : Interleaved single ⟨.start,fun _ => none⟩ queuedPool ∧
    (watch queuedPool.state.history).hand = [] ∧ visible queuedPool.state.queue.held = [.opened 1 1] ∧
    Mark.called ∈ [.queued (.executing 1 1),.called,.returned none,.queued (.opened 1 1)] := by
  obtain ⟨stream,between,alert,_⟩ := older_caller_misses_nothing queuedPool_run
  refine ⟨queuedPool_run,between [] rfl,stream.symm,?_⟩
  have known := alert [] [.queued (.executing 1 1),.called,.returned none,.queued (.opened 1 1)] rfl (by simp)
    ⟨.opened 1 1,by simp,rfl⟩
  refine known.resolve_right ?_
  rintro ⟨name,p,flies,_⟩
  simp [queuedPool_quiet] at flies

end Reldex.Ffi.Waking
