import Reldex.EventStreams

/-! The slots that bound a session's replies. A slot is reserved when a request is accepted,
rides on the reply through the queue, and is released by whoever ends up with it: the
consumer that takes the reply out, the drop of the queue, or the emitter of a reply that the
queue did not keep. -/
namespace Reldex
open List Option Function Nat Relation

/-- The queue, the counters of the sessions, and the requests that are owed a reply. A reply
channel is consumed by its answer; `settling` are the replies that were answered into a queue
without a consumer and whose slot the emitter is about to release. -/
structure Exchange where
  shared : Shared
  slots : SessionId → Nat
  overReleased : Bool
  owed : List (SessionId × RequestId)
  settling : List SessionId

namespace Exchange

def start : Exchange := ⟨.start,fun _ => 0,false,[],[]⟩

/-- Releases one slot of the session; a debug build asserts that one was reserved. -/
def release (session : SessionId) (x : Exchange) : Exchange :=
  match RequestSlots.release (x.slots session) with
  | some outstanding => { x with slots := update x.slots session outstanding }
  | none => { x with overReleased := true }

/-- `Queued::take`. -/
def take (queued : Queued) (x : Exchange) : Exchange :=
  match queued.slot with
  | some session => x.release session
  | none => x

def withInner (inner : Inner) (x : Exchange) : Exchange := { x with shared := { x.shared with inner := inner } }

def pop (x : Exchange) : Option (SessionEvent × Exchange) :=
  match x.shared.inner.pop with
  | none => none
  | some (queued,inner) => some (queued.event,(x.withInner inner).take queued)

/-- Pops until nothing is left; the bound is the length of the queue. -/
def popAll : Nat → Exchange → Exchange
  | 0, x => x
  | bound + 1, x =>
    match x.pop with
    | none => x
    | some (_,x) => popAll bound x

/-- The consumer goes: what is queued is discarded, what comes later is not kept. -/
def dropQueue (x : Exchange) : Exchange :=
  let closed := x.withInner { x.shared.inner with closed := true }
  let emptied := popAll closed.shared.inner.queue.length closed
  emptied.withInner { emptied.shared.inner with sessions := fun _ => none }

def accept (session : SessionId) (request : RequestId) (outstanding : Nat) (x : Exchange) : Exchange :=
  { x with
    slots := update x.slots session outstanding
    owed := (session,request) :: x.owed }

def answer (caps : EventCaps) (session : SessionId) (request : RequestId) (event : SessionEvent) (x : Exchange) :
    Exchange :=
  let pushed := x.shared.push caps event (some session)
  { x with
    shared := pushed.2
    owed := x.owed.erase (session,request)
    settling := if pushed.1.kept then x.settling else session :: x.settling }

/-- One atomic step of a submitter, a producer or the consumer. A request is accepted by a
submit, a close or an open, each with its limit; it is answered by the worker, by the
submitter, or by the drop of its reply channel. -/
inductive Step (caps : EventCaps) : Exchange → Exchange → Prop where
  | accept (session : SessionId) (request : RequestId) (limit : Nat)
      (reserved : RequestSlots.reserve limit (x.slots session) = .ok outstanding) :
      Step caps x (x.accept session request outstanding)
  | answer (session : SessionId) (request : RequestId) (event : SessionEvent) (owed : (session,request) ∈ x.owed)
      (reply : event.isReply = true) (own : event.session = session) (asked : event.request = some request) :
      Step caps x (x.answer caps session request event)
  | settle (session : SessionId) (unkept : session ∈ x.settling) :
      Step caps x ({ x with settling := x.settling.erase session }.release session)
  | emit (event : SessionEvent) (other : event.isReply = false) :
      Step caps x { x with shared := (x.shared.push caps event none).2 }
  | pop {next : Exchange} (popped : x.pop = some (event,next)) : Step caps x next
  | dropQueue : Step caps x x.dropQueue

def unanswered (session : SessionId) (x : Exchange) : Nat :=
  x.owed.countP (·.1 == session) + x.settling.count session

def queuedReplies (session : SessionId) (x : Exchange) : Nat :=
  x.shared.inner.queue.countP fun queued => queued.event.isReply && queued.event.session == session

def Carries (queue : List Queued) : Prop :=
  ∀ queued ∈ queue, queued.slot = if queued.event.isReply then some queued.event.session else none

def carried (session : SessionId) (queue : List Queued) : Nat := queue.countP (·.slot == some session)

structure Balanced (x : Exchange) : Prop where
  slots : ∀ session, x.slots session = x.unanswered session + carried session x.shared.inner.queue
  carries : Carries x.shared.inner.queue
  released : x.overReleased = false

theorem carried_eq (carries : Carries queue) (session : SessionId) :
    carried session queue = queue.countP fun queued => queued.event.isReply && queued.event.session == session := by
  refine countP_congr fun queued member => ?_
  rw [carries queued member]
  cases queued.event.isReply <;> simp

section

structure Alike (event other : SessionEvent) : Prop where
  reply : other.isReply = event.isReply
  session : other.session = event.session
  request : other.request = event.request

theorem Alike.refl (event : SessionEvent) : Alike event event := ⟨rfl,rfl,rfl⟩

theorem stamp_alike (event : SessionEvent) (inner : Inner) : Alike event (inner.stampUnsolicited event).1 := by
  unfold Inner.stampUnsolicited
  split
  · exact ⟨rfl,rfl,rfl⟩
  · cases event <;> exact ⟨rfl,rfl,rfl⟩

theorem withoutLines_alike (event : SessionEvent) : Alike event event.withoutLines := by
  cases event <;> exact ⟨rfl,rfl,rfl⟩

theorem stamp_queue (event : SessionEvent) (inner : Inner) : (inner.stampUnsolicited event).2.queue = inner.queue ∧
    (inner.stampUnsolicited event).2.closed = inner.closed := by
  unfold Inner.stampUnsolicited
  split
  · exact ⟨rfl,rfl⟩
  · cases event <;> exact ⟨rfl,rfl⟩

/-- What a push does to the queue: it appends the event with its slot, or keeps every slot
where it is. -/
inductive Outcome (event : SessionEvent) (slot : Option SessionId) (inner next : Inner) : Bool → Prop where
  | kept (alike : Alike event stored) (grown : next.queue = inner.queue ++ [⟨stored,slot⟩])
      (closed : next.closed = inner.closed) (opened : inner.closed = false) : Outcome event slot inner next true
  | folded (queue : next.queue = inner.queue.modify i (Inner.refresh possiblyActive))
      (closed : next.closed = inner.closed) (other : event.isReply = false) : Outcome event slot inner next false
  | unchanged (queue : next.queue = inner.queue) (closed : next.closed = inner.closed)
      (discarded : event.isReply = true → inner.closed = true) : Outcome event slot inner next false

theorem enqueue_outcome (slot : Option SessionId) {inner middle : Inner} (alike : Alike event stored)
    (queue : middle.queue = inner.queue) (closed : middle.closed = inner.closed) (opened : inner.closed = false) :
    Outcome event slot inner (middle.enqueue stored slot) true := by
  obtain ⟨same,status⟩ := stamp_queue stored middle
  have stamped := stamp_alike stored middle
  refine .kept ⟨stamped.reply.trans alike.reply,stamped.session.trans alike.session,
    stamped.request.trans alike.request⟩ ?_ ?_ opened
  · simp only [Inner.enqueue,same,queue]
  · simp only [Inner.enqueue,status,closed]

theorem admit_queue (caps : EventCaps) (event : SessionEvent) (inner : Inner) :
    (inner.admitUnsolicited caps event).2.closed = inner.closed ∧
    ((inner.admitUnsolicited caps event).1 ≠ .coalesced ∧ (inner.admitUnsolicited caps event).2.queue = inner.queue ∨
      ∃ i possiblyActive, (inner.admitUnsolicited caps event).1 = .coalesced ∧
        (inner.admitUnsolicited caps event).2.queue = inner.queue.modify i (Inner.refresh possiblyActive)) := by
  unfold Inner.admitUnsolicited
  split
  · split
    · simp
    · rename_i i _
      split
      · exact ⟨rfl,.inr ⟨i,_,rfl,rfl⟩⟩
      · simp
  · split
    · simp
    · split
      · split
        · dsimp only
          split <;> simp [Inner.setSession]
        · simp
      · simp

theorem push_outcome (caps : EventCaps) (event : SessionEvent) (slot : Option SessionId) (shared : Shared) :
    Outcome event slot shared.inner (shared.push caps event slot).2.inner (shared.push caps event slot).1.kept := by
  unfold Shared.push
  split
  · rename_i closed
    exact .unchanged rfl rfl fun _ => closed
  · rename_i opened
    have opened : shared.inner.closed = false := by simpa using opened
    dsimp only
    split
    · rename_i capped
      have other : event.isReply = false := by
        cases event <;> first | rfl | simp [SessionEvent.isUnsolicited] at capped
      obtain ⟨closed,touched⟩ := admit_queue caps event shared.inner
      generalize shared.inner.admitUnsolicited caps event = admitted at closed touched
      obtain ⟨admission,middle⟩ := admitted
      dsimp only at closed touched
      cases admission with
      | enqueue =>
        obtain ⟨_,queue⟩ | ⟨_,_,differs,_⟩ := touched
        · exact enqueue_outcome slot (.refl event) queue closed opened
        · cases differs
      | enqueueWithoutLines =>
        obtain ⟨_,queue⟩ | ⟨_,_,differs,_⟩ := touched
        · exact enqueue_outcome slot (withoutLines_alike event) queue closed opened
        · cases differs
      | coalesced =>
        obtain ⟨differs,_⟩ | ⟨i,possiblyActive,_,queue⟩ := touched
        · exact absurd rfl differs
        · exact .folded queue closed other
      | dropped =>
        obtain ⟨_,queue⟩ | ⟨_,_,differs,_⟩ := touched
        · exact .unchanged queue closed fun reply => by simp [other] at reply
        · cases differs
    · exact enqueue_outcome slot (.refl event) rfl rfl opened

theorem map_refresh (tag : Queued → β) (possiblyActive : Bool)
    (same : ∀ queued, tag (Inner.refresh possiblyActive queued) = tag queued) (queue : List Queued) (i : Nat) :
    (queue.modify i (Inner.refresh possiblyActive)).map tag = queue.map tag := by
  refine ext_getElem? fun j => ?_
  rw [getElem?_map,getElem?_modify,getElem?_map]
  cases queue[j]? with
  | none => simp
  | some queued =>
    by_cases here : i = j <;> simp [here,same]

def tag (queued : Queued) : Option SessionId × Bool × SessionId × Option RequestId :=
  (queued.slot,queued.event.isReply,queued.event.session,queued.event.request)

theorem tag_refresh (possiblyActive : Bool) (queued : Queued) : tag (Inner.refresh possiblyActive queued) = tag queued := by
  obtain ⟨event,slot⟩ := queued
  cases event <;> rfl

theorem carries_iff (queue : List Queued) :
    Carries queue ↔ ∀ entry ∈ queue.map tag, entry.1 = if entry.2.1 then some entry.2.2.1 else none := by
  simp [Carries,tag]

theorem carried_tag (session : SessionId) (queue : List Queued) :
    carried session queue = (queue.map tag).countP (·.1 == some session) := by
  rw [countP_map]
  rfl

variable {next : Inner} (outcome : Outcome event slot old next retained)
include outcome

theorem Outcome.tags :
    next.queue.map tag = old.queue.map tag ++ if retained then [(slot,event.isReply,event.session,event.request)] else [] := by
  cases outcome with
  | kept alike grown =>
    simp [grown,tag,alike.reply,alike.session,alike.request]
  | folded queue =>
    rw [queue,map_refresh tag _ (tag_refresh _)]
    simp
  | unchanged queue => simp [queue]

theorem Outcome.closed_eq : next.closed = old.closed := by
  cases outcome <;> assumption

theorem Outcome.drained (closed : old.closed = true) (empty : old.queue = []) : next.queue = [] := by
  cases outcome with
  | kept _ _ _ opened => simp [closed] at opened
  | folded queue => simp [queue,empty]
  | unchanged queue => rw [queue,empty]

theorem Outcome.carries
    (carries : Carries old.queue) (proper : slot = if event.isReply then some event.session else none) :
    Carries next.queue ∧ ∀ session, carried session next.queue =
      carried session old.queue + if retained = true ∧ slot = some session then 1 else 0 := by
  rw [carries_iff] at carries ⊢
  rw [outcome.tags]
  refine ⟨fun entry member => ?_,fun session => ?_⟩
  · rcases mem_append.mp member with before | new
    · exact carries entry before
    · cases retained with
      | false => simp at new
      | true =>
        obtain rfl : entry = (slot,event.isReply,event.session,event.request) := by simpa using new
        exact proper
  · rw [carried_tag,carried_tag,outcome.tags,countP_append]
    cases retained <;> simp

end

section
variable {x next : Exchange}

theorem release_balanced (session : SessionId) (carries : Carries x.shared.inner.queue)
    (released : x.overReleased = false)
    (slots : ∀ named, x.slots named = x.unanswered named + carried named x.shared.inner.queue +
      if named = session then 1 else 0) : Balanced (x.release session) := by
  have held : x.slots session ≠ 0 := by
    rw [slots session]
    simp
  have given : x.release session = { x with slots := update x.slots session (x.slots session - 1) } := by
    simp [release,RequestSlots.release,held]
  rw [given]
  refine ⟨fun named => ?_,carries,released⟩
  have here := slots named
  by_cases same : named = session
  · subst same
    simp only [↓reduceIte] at here
    simp only [update_self,here]
    rfl
  · simpa [same,unanswered] using here

theorem Balanced.accept (balanced : Balanced x) (session : SessionId) (request : RequestId)
    (reserved : RequestSlots.reserve limit (x.slots session) = .ok outstanding) :
    Balanced (x.accept session request outstanding) := by
  have taken : outstanding = x.slots session + 1 := by
    unfold RequestSlots.reserve at reserved
    split at reserved
    · cases reserved
    · exact (Except.ok.inj reserved).symm
  refine ⟨fun named => ?_,balanced.carries,balanced.released⟩
  have before := balanced.slots named
  simp only [unanswered,Exchange.accept] at before ⊢
  by_cases same : named = session
  · subst same
    simp only [update_self,taken,before,countP_cons,beq_self_eq_true,↓reduceIte]
    omega
  · simpa [same,Ne.symm same,countP_cons] using before

theorem countP_erase_owed {owed : List (SessionId × RequestId)} (member : (session,request) ∈ owed) (named : SessionId) :
    owed.countP (·.1 == named) = (owed.erase (session,request)).countP (·.1 == named) + if named = session then 1 else 0 := by
  rw [(perm_cons_erase member).countP_eq,countP_cons]
  by_cases same : named = session
  · simp [same]
  · simp [same,Ne.symm same]

theorem count_erase_settling {settling : List SessionId} (member : session ∈ settling) (named : SessionId) :
    settling.count named = (settling.erase session).count named + if named = session then 1 else 0 := by
  rw [(perm_cons_erase member).count_eq,count_cons]
  by_cases same : named = session
  · simp [same]
  · simp [same,Ne.symm same]

theorem Balanced.answer (balanced : Balanced x) (caps : EventCaps) (event : SessionEvent)
    (owed : (session,request) ∈ x.owed) (reply : event.isReply = true) (own : event.session = session) :
    Balanced (x.answer caps session request event) := by
  have outcome := push_outcome caps event (some session) x.shared
  obtain ⟨carries,count⟩ := outcome.carries balanced.carries (by simp [reply,own])
  refine ⟨fun named => ?_,carries,balanced.released⟩
  have before := balanced.slots named
  have erased := countP_erase_owed owed named
  have settled : (if (x.shared.push caps event (some session)).1.kept then x.settling else session :: x.settling).count named =
      x.settling.count named + if (x.shared.push caps event (some session)).1.kept = false ∧ named = session then 1 else 0 := by
    cases (x.shared.push caps event (some session)).1.kept
    · by_cases same : named = session
      · simp [same]
      · simp [same,Ne.symm same]
    · simp
  simp only [unanswered,Exchange.answer,count,settled] at before ⊢
  rw [before,erased]
  by_cases same : named = session
  · subst same
    cases (x.shared.push caps event (some named)).1.kept <;> simp <;> omega
  · simp [same,Ne.symm same]

theorem Balanced.settle (balanced : Balanced x) (unkept : session ∈ x.settling) :
    Balanced ({ x with settling := x.settling.erase session }.release session) := by
  refine release_balanced session balanced.carries balanced.released fun named => ?_
  have before := balanced.slots named
  have erased := count_erase_settling unkept named
  simp only [unanswered] at before ⊢
  omega

theorem Balanced.emit (balanced : Balanced x) (caps : EventCaps) (event : SessionEvent) (other : event.isReply = false) :
    Balanced { x with shared := (x.shared.push caps event none).2 } := by
  obtain ⟨carries,count⟩ := (push_outcome caps event none x.shared).carries balanced.carries (by simp [other])
  refine ⟨fun named => ?_,carries,balanced.released⟩
  have before := balanced.slots named
  simp only [unanswered] at before ⊢
  simpa [count] using before

theorem pop_cases (popped : x.pop = some (event,next)) : ∃ queued inner, x.shared.inner.pop = some (queued,inner) ∧
    x.shared.inner.queue = queued :: inner.queue ∧ inner.closed = x.shared.inner.closed ∧
    next = (x.withInner inner).take queued := by
  unfold Exchange.pop at popped
  split at popped
  · cases popped
  · rename_i queued inner taken
    simp only [some.injEq,Prod.mk.injEq] at popped
    refine ⟨queued,inner,taken,?_,?_,popped.2.symm⟩ <;>
    · unfold Inner.pop at taken
      split at taken
      · cases taken
      · rename_i front rest queue
        simp only [some.injEq,Prod.mk.injEq] at taken
        obtain ⟨rfl,rfl⟩ := taken
        split <;> simp [Inner.releaseUnsolicited_rest,queue]

theorem take_shared (queued : Queued) : (x.take queued).shared = x.shared := by
  unfold take release
  split
  · split <;> rfl
  · rfl

theorem Balanced.pop (balanced : Balanced x) (popped : x.pop = some (event,next)) : Balanced next := by
  obtain ⟨queued,inner,_,queue,_,rfl⟩ := pop_cases popped
  have carries : Carries inner.queue := fun other member =>
    balanced.carries other (queue ▸ mem_cons_of_mem _ member)
  have counts : ∀ named, carried named x.shared.inner.queue =
      carried named inner.queue + if queued.slot = some named then 1 else 0 := by
    intro named
    rw [queue,carried,countP_cons]
    simp [carried]
  unfold take
  cases slot : queued.slot with
  | none =>
    refine ⟨fun named => ?_,carries,balanced.released⟩
    have before := balanced.slots named
    rw [counts,slot] at before
    exact before
  | some session =>
    refine release_balanced session carries balanced.released fun named => ?_
    have before := balanced.slots named
    rw [counts,slot] at before
    simp only [some.injEq,eq_comm (a := session)] at before
    exact before.trans (add_assoc ..).symm

theorem popAll_balanced (bound : Nat) (balanced : Balanced x) : Balanced (popAll bound x) := by
  induction bound generalizing x with
  | zero => exact balanced
  | succ bound ih =>
    unfold popAll
    split
    · exact balanced
    · rename_i popped
      exact ih (balanced.pop popped)

theorem popAll_empty (bound : Nat) (enough : x.shared.inner.queue.length ≤ bound) :
    (popAll bound x).shared.inner.queue = [] := by
  induction bound generalizing x with
  | zero => exact eq_nil_of_length_eq_zero (le_zero.mp enough)
  | succ bound ih =>
    unfold popAll
    split
    · rename_i stuck
      cases queue : x.shared.inner.queue with
      | nil => rfl
      | cons front rest => simp [Exchange.pop,Inner.pop,queue] at stuck
    · rename_i popped
      obtain ⟨queued,inner,_,queue,_,rfl⟩ := pop_cases popped
      refine ih ?_
      rw [take_shared]
      rw [queue,length_cons] at enough
      exact le_of_succ_le_succ enough

theorem Balanced.dropQueue (balanced : Balanced x) : Balanced x.dropQueue ∧ x.dropQueue.shared.inner.queue = [] := by
  let closed := x.withInner { x.shared.inner with closed := true }
  have start : Balanced closed := ⟨balanced.slots,balanced.carries,balanced.released⟩
  have popped := popAll_balanced closed.shared.inner.queue.length start
  exact ⟨⟨popped.slots,popped.carries,popped.released⟩,popAll_empty _ (le_refl _)⟩

theorem release_shared (session : SessionId) : (x.release session).shared = x.shared := by
  unfold release
  split <;> rfl

theorem Step.balanced (step : Step caps x next) (balanced : Balanced x) : Balanced next := by
  cases step with
  | accept session request _ reserved => exact balanced.accept session request reserved
  | answer _ _ event owed reply own _ => exact balanced.answer caps event owed reply own
  | settle _ unkept => exact balanced.settle unkept
  | emit event other => exact balanced.emit caps event other
  | pop popped => exact balanced.pop popped
  | dropQueue => exact balanced.dropQueue.1

def Drained (x : Exchange) : Prop := x.shared.inner.closed = true → x.shared.inner.queue = []

theorem Step.drained (step : Step caps x next) (balanced : Balanced x) (drained : Drained x) : Drained next := by
  cases step with
  | accept => exact drained
  | answer session _ event =>
    have outcome := push_outcome caps event (some session) x.shared
    intro closed
    have before := outcome.closed_eq.symm.trans closed
    exact outcome.drained before (drained before)
  | settle session _ =>
    unfold Drained
    rw [release_shared]
    exact drained
  | emit event _ =>
    have outcome := push_outcome caps event none x.shared
    intro closed
    have before := outcome.closed_eq.symm.trans closed
    exact outcome.drained before (drained before)
  | pop popped =>
    obtain ⟨queued,inner,_,queue,closed,rfl⟩ := pop_cases popped
    unfold Drained
    rw [take_shared]
    intro after
    have empty := drained (closed.symm.trans after)
    rw [queue] at empty
    cases empty
  | dropQueue => exact fun _ => balanced.dropQueue.2

theorem run_balanced (run : ReflTransGen (Step caps) start x) : Balanced x ∧ Drained x := by
  induction run with
  | refl => exact ⟨⟨fun _ => rfl,forall_mem_nil _,rfl⟩,fun _ => rfl⟩
  | tail _ step ih => exact ⟨step.balanced ih.1,step.drained ih.1 ih.2⟩

end

/-- In every interleaving a session's slots are its unanswered requests and its queued replies;
no release finds the counter at zero; and a session whose consumer is gone holds the slots of
its unanswered requests only, so none once all are answered. -/
theorem slots_are_conserved (run : ReflTransGen (Step caps) start x) (session : SessionId) :
    x.slots session = x.unanswered session + x.queuedReplies session ∧ x.overReleased = false ∧
    (x.shared.inner.closed = true → x.slots session = x.unanswered session ∧
      ((∀ request, (session,request) ∉ x.owed) → session ∉ x.settling → x.slots session = 0)) := by
  obtain ⟨balanced,drained⟩ := run_balanced run
  have slots := balanced.slots session
  rw [carried_eq balanced.carries] at slots
  refine ⟨slots,balanced.released,fun closed => ?_⟩
  have left : x.slots session = x.unanswered session := by
    rw [slots,drained closed]
    rfl
  refine ⟨left,fun none settled => ?_⟩
  have owed : x.owed.countP (·.1 == session) = 0 := by
    refine countP_eq_zero.mpr fun entry member => ?_
    obtain ⟨_,request⟩ := entry
    simp only [beq_iff_eq]
    rintro rfl
    exact none request member
  rw [left,unanswered,owed,count_eq_zero_of_not_mem settled]

def abandoned : Exchange :=
  let asked : Exchange := { start with slots := update (update (fun _ => 0) 1 1) 1 2, owed := [(1,2),(1,1)] }
  (asked.answer ⟨⟨1,by decide⟩⟩ 1 1 (.completed 1 1 .ping (.ok ()))).dropQueue

theorem abandoned_reached : ReflTransGen (Step ⟨⟨1,by decide⟩⟩) start abandoned :=
  .tail (.tail (.tail (.tail .refl (.accept 1 1 2 rfl)) (.accept 1 2 2 rfl))
    (.answer 1 1 _ (by decide) rfl rfl rfl)) .dropQueue

theorem abandoned_slots_are_conserved : abandoned.slots 1 = 1 ∧ abandoned.overReleased = false ∧ abandoned.unanswered 1 = 1 := by
  obtain ⟨_,released,closed⟩ := slots_are_conserved abandoned_reached 1
  have one : abandoned.slots 1 = 1 := rfl
  exact ⟨one,released,(closed rfl).1.symm.trans one⟩

end Exchange
end Reldex
