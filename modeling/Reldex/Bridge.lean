import Reldex.HubWakes

/-! The bridge between the hub's queue and the event loop of the UI thread. A wake posts one
drain at most, and a drain that runs inside another or that stops at its budget is posted
again: no event is left that nothing will come for. -/
namespace Reldex.Ui
open Function Bool Nat

/-- How far a thread is with a wake: no wake is due, the queue was filled and the flag not yet
exchanged, the flag was set and the drain not yet posted. -/
inductive Waking where
  | quiet | due | posting
  deriving DecidableEq, Repr

/-- The hub's queue, the members of the bridge and the drains in the queue of the event loop;
and a record: how far the threads are with their wakes, how many drains were begun that did
not find the queue empty yet nor were posted again, and whether one has yet to clear the flag. -/
structure Bridge where
  events : Shared
  drainPosted : Bool
  draining : Bool
  drainEventBudget : Int
  drainTimeBudgetMs : Int
  posted : Nat
  waking : Nat → Waking
  owed : Nat
  entering : Bool

namespace Bridge

def start (drainEventBudget drainTimeBudgetMs : Int) : Bridge :=
  ⟨.start,false,false,drainEventBudget,drainTimeBudgetMs,0,fun _ => .quiet,0,false⟩

def setWaking (name : Nat) (waking : Waking) (bridge : Bridge) : Bridge :=
  { bridge with waking := Function.update bridge.waking name waking }

@[simp] theorem setWaking_self (name : Nat) (waking : Waking) (bridge : Bridge) :
    (bridge.setWaking name waking).waking name = waking := by simp [setWaking]

/-- `Shared::push`; it says whether the pusher has to wake. -/
def push (caps : EventCaps) (name : Nat) (event : SessionEvent) (slot : Option SessionId) (bridge : Bridge) :
    Bool × Bridge :=
  let pushed := bridge.events.push caps event slot
  (pushed.1.wake,{ bridge with events := pushed.2 }.setWaking name (if pushed.1.wake then .due else .quiet))

/-- `m_drainPosted.fetchAndStoreOrdered(1)`. If the flag was set nothing is left to do, and a
drain that posts itself again has paid what it owed. -/
def exchange (name pays : Nat) (bridge : Bridge) : Bool × Bridge :=
  if bridge.drainPosted then (true,{ bridge with owed := bridge.owed - pays }.setWaking name .quiet)
  else (false,{ bridge with drainPosted := true }.setWaking name .posting)

/-- `QMetaObject::invokeMethod` with a queued connection. -/
def post (name pays : Nat) (bridge : Bridge) : Bridge :=
  { bridge with posted := bridge.posted + 1, owed := bridge.owed - pays }.setWaking name .quiet

def deliver (bridge : Bridge) : Bool × Bridge :=
  if bridge.posted = 0 then (false,bridge)
  else (true,{ bridge with posted := bridge.posted - 1, owed := bridge.owed + 1, entering := true })

/-- `reldex_hub_next_event` for a caller of the current header. -/
def next (bridge : Bridge) : Bool × Bridge :=
  match bridge.events.inner.pop with
  | none => (false,{ bridge with owed := bridge.owed - 1 })
  | some (_,inner) => (true,{ bridge with events := { bridge.events with inner := inner } })

def budgetHit (events elapsed : Nat) (bridge : Bridge) : Bool :=
  (0 < bridge.drainEventBudget && bridge.drainEventBudget ≤ events) ||
    (0 < bridge.drainTimeBudgetMs && bridge.drainTimeBudgetMs ≤ elapsed)

end Bridge

/-- Where a drain is when other code of the UI thread runs: the handler of an event runs and
these were handled before, or the slots of `drained` run. -/
inductive Frame where
  | dispatching (events : Nat)
  | emitting
  deriving DecidableEq, Repr

/-- What the UI thread does next outside `drain`: the innermost event loop takes a posted
drain, a call queues an event, the budgets are set, or the innermost handler returns to its
drain this long after that began. -/
inductive Act where
  | deliver
  | queue (event : SessionEvent) (slot : Option SessionId)
  | budgets (events timeMs : Int)
  | back (elapsed : Nat)

/-- A worker is done with its event; the UI thread runs other code inside these drains. -/
inductive Turn where
  | done
  | ui (frames : List Frame) (rest : List Act)

abbrev Task := Prog Bridge

def ui : Nat := 0

def coalesce (name pays : Nat) : Task Unit := do
  if ← Prog.modifyGet (Bridge.exchange name pays) then pure ()
  else .modify (Bridge.post name pays)

def reldexBridgeWakeImpl (name : Nat) : Task Unit := coalesce name 0
def postDrain : Task Unit := coalesce ui 1

def queueEvent (caps : EventCaps) (name : Nat) (event : SessionEvent) (slot : Option SessionId) : Task Unit := do
  if ← Prog.modifyGet (Bridge.push caps name event slot) then reldexBridgeWakeImpl name
  else pure ()

section
variable (frames : List Frame) (rest : List Act)

/-- The loop of `drain` from the top: after this many events it takes the next or ends. -/
def takeNext (events : Nat) : Task Turn := do
  if ← Prog.modifyGet Bridge.next then pure (.ui (.dispatching events :: frames) rest)
  else pure (.ui (.emitting :: frames) rest)

/-- `drain` up to its first handler. -/
def drain : Task Turn := do
  .modify fun bridge => { bridge with drainPosted := false, entering := false }
  if ← Prog.gets Bridge.draining then
    -- it never nests: the drain around it goes on, this one gets back in line
    postDrain
    pure (.ui frames rest)
  else
    .modify fun bridge => { bridge with draining := true }
    takeNext frames rest 0

/-- `drain` from the return of a handler to the next, or from the slots of `drained` to its end. -/
def Frame.back (elapsed : Nat) : Frame → Task Turn
  | .dispatching events => do
    if ← Prog.gets (Bridge.budgetHit (events + 1) elapsed) then
      postDrain
      pure (.ui (.emitting :: frames) rest)
    else takeNext frames rest (events + 1)
  | .emitting => do
    .modify fun bridge => { bridge with draining := false }
    pure (.ui frames rest)

def Act.perform (caps : EventCaps) : Act → Task Turn
  | .deliver => do
    if ← Prog.modifyGet Bridge.deliver then drain frames rest else pure (.ui frames rest)
  | .queue event slot => do
    queueEvent caps ui event slot
    pure (.ui frames rest)
  | .budgets events timeMs => do
    .modify fun bridge => { bridge with drainEventBudget := events, drainTimeBudgetMs := timeMs }
    pure (.ui frames rest)
  | .back elapsed =>
    match frames with
    | [] => pure (.ui [] rest)
    | frame :: around => frame.back around rest elapsed

end

def Turn.resume (caps : EventCaps) : Turn → Option (Task Turn)
  | .done | .ui _ [] => none
  | .ui frames (act :: rest) => some (act.perform frames rest caps)

/-- The UI thread with whatever it will do, and any number of workers with an event each. -/
inductive Starts (caps : EventCaps) : Nat → Task Turn → Prop where
  | ui (acts : List Act) : Starts caps ui (pure (.ui [] acts))
  | worker (other : name ≠ ui) (event : SessionEvent) (slot : Option SessionId) :
      Starts caps name (queueEvent caps name event slot >>= fun _ => pure .done)

abbrev Interleaved (caps : EventCaps) : Pool Bridge Turn → Pool Bridge Turn → Prop :=
  Relation.ReflTransGen (Pool.Step (Turn.resume caps) (Starts caps))

section

inductive Moves (caps : EventCaps) (name : Nat) : Bridge → Bridge → Prop where
  | push (event : SessionEvent) (slot : Option SessionId) (quiet : bridge.waking name = .quiet) :
      Moves caps name bridge (bridge.push caps name event slot).2
  | exchange (unposted : bridge.waking name ≠ .posting)
      (own : pays = 0 ∨ name = ui ∧ bridge.entering = false) : Moves caps name bridge (bridge.exchange name pays).2
  | post (own : pays = 0 ∨ name = ui ∧ bridge.entering = false) : Moves caps name bridge (bridge.post name pays)
  | deliver (own : name = ui) : Moves caps name bridge bridge.deliver.2
  | clear (own : name = ui) :
      Moves caps name bridge { bridge with drainPosted := false, entering := false }
  | draining (own : name = ui) (draining : Bool) : Moves caps name bridge { bridge with draining := draining }
  | next (own : name = ui) (entered : bridge.entering = false) : Moves caps name bridge bridge.next.2
  | budgets (events timeMs : Int) :
      Moves caps name bridge { bridge with drainEventBudget := events, drainTimeBudgetMs := timeMs }
  | rest : Moves caps name bridge bridge

variable {caps : EventCaps} {name other : Nat} {bridge later : Bridge}

structure Untouched (name : Nat) (bridge later : Bridge) : Prop where
  waking : later.waking name = bridge.waking name
  owed : name = ui → later.owed = bridge.owed
  entering : name = ui → later.entering = bridge.entering
  draining : name = ui → later.draining = bridge.draining

theorem Untouched.of_waking (same : later.waking = update bridge.waking other far) (different : other ≠ name)
    (owed : later.owed = bridge.owed) (entering : later.entering = bridge.entering)
    (draining : later.draining = bridge.draining) : Untouched name bridge later :=
  ⟨by rw [same,update_of_ne (Ne.symm different)],fun _ => owed,fun _ => entering,fun _ => draining⟩

theorem Untouched.of_ui (same : later.waking = bridge.waking) (foreign : name ≠ ui) : Untouched name bridge later :=
  ⟨by rw [same],fun own => absurd own foreign,fun own => absurd own foreign,fun own => absurd own foreign⟩

theorem Moves.untouched (moves : Moves caps other bridge later) (different : other ≠ name) :
    Untouched name bridge later := by
  have free {pays : Nat} : pays = 0 ∨ other = ui ∧ bridge.entering = false → name = ui → bridge.owed - pays = bridge.owed := by
    rintro (rfl | ⟨self,_⟩) own
    · rfl
    · exact absurd (self.trans own.symm) different
  have foreign (self : other = ui) : name ≠ ui := fun own => different (self.trans own.symm)
  have apart (waking : Waking) : update bridge.waking other waking name = bridge.waking name :=
    update_of_ne (Ne.symm different) _ _
  cases moves with
  | push event slot quiet => exact .of_waking rfl different rfl rfl rfl
  | exchange unposted own =>
    unfold Bridge.exchange
    split
    · exact ⟨apart _,free own,fun _ => rfl,fun _ => rfl⟩
    · exact .of_waking rfl different rfl rfl rfl
  | post own => exact ⟨apart _,free own,fun _ => rfl,fun _ => rfl⟩
  | deliver self =>
    unfold Bridge.deliver
    split <;> exact .of_ui rfl (foreign self)
  | clear self => exact .of_ui rfl (foreign self)
  | draining self draining => exact .of_ui rfl (foreign self)
  | next self entered =>
    unfold Bridge.next
    split <;> exact .of_ui rfl (foreign self)
  | budgets events timeMs => exact ⟨rfl,fun _ => rfl,fun _ => rfl,fun _ => rfl⟩
  | rest => exact ⟨rfl,fun _ => rfl,fun _ => rfl,fun _ => rfl⟩

/-- The flag stands for a drain that is posted, is being posted or has yet to clear it, and
behind a filled queue there is a wake or a drain. -/
structure Bridge.Sound (bridge : Bridge) : Prop where
  flagged : bridge.drainPosted = true →
    0 < bridge.posted ∨ (∃ name, bridge.waking name = .posting) ∨ bridge.entering = true
  entered : bridge.entering = true → 0 < bridge.owed
  alert : bridge.events.inner.queue ≠ [] → 0 < bridge.posted ∨ (∃ name, bridge.waking name ≠ .quiet) ∨ 0 < bridge.owed

theorem start_sound (drainEventBudget drainTimeBudgetMs : Int) :
    (Bridge.start drainEventBudget drainTimeBudgetMs).Sound :=
  ⟨by simp [Bridge.start],by simp [Bridge.start],by simp [Bridge.start,Shared.start,Inner.start]⟩

theorem posting_update (posting : bridge.waking poster = .posting) (unposted : bridge.waking name ≠ .posting)
    (waking : Waking) : update bridge.waking name waking poster = .posting := by
  rw [update_of_ne,posting]
  rintro rfl
  exact unposted posting

theorem push_sound (event : SessionEvent) (slot : Option SessionId) (quiet : bridge.waking name = .quiet)
    (sound : bridge.Sound) : (bridge.push caps name event slot).2.Sound := by
  refine ⟨fun flag => ?_,sound.entered,fun filled => ?_⟩
  · refine (sound.flagged flag).imp_right (Or.imp_left ?_)
    rintro ⟨poster,posting⟩
    exact ⟨poster,posting_update posting (by simp [quiet]) _⟩
  by_cases wake : (bridge.events.push caps event slot).1.wake = true
  · exact .inr (.inl ⟨name,by simp [Bridge.push,Bridge.setWaking,wake]⟩)
  -- no wake is due, so the queue was filled before
  have before : bridge.events.inner.queue ≠ [] :=
    fun empty => wake (Ffi.Waking.push_wakes caps event slot bridge.events filled empty)
  refine (sound.alert before).imp_right (Or.imp_left ?_)
  rintro ⟨awake,unquiet⟩
  refine ⟨awake,?_⟩
  have apart : awake ≠ name := by
    rintro rfl
    exact unquiet quiet
  change update bridge.waking name _ awake ≠ .quiet
  rwa [update_of_ne apart]

theorem exchange_sound (unposted : bridge.waking name ≠ .posting)
    (own : pays = 0 ∨ name = ui ∧ bridge.entering = false) (sound : bridge.Sound) :
    (bridge.exchange name pays).2.Sound := by
  unfold Bridge.exchange
  split
  · rename_i flag
    -- whoever set the flag has posted or still will
    have posted : 0 < bridge.posted ∨ (∃ poster, update bridge.waking name .quiet poster = .posting) ∨
        bridge.entering = true := by
      refine (sound.flagged flag).imp_right (Or.imp_left ?_)
      rintro ⟨poster,posting⟩
      exact ⟨poster,posting_update posting unposted _⟩
    have entered (entering : bridge.entering = true) : 0 < bridge.owed - pays := by
      obtain rfl | ⟨_,out⟩ := own
      · exact sound.entered entering
      · simp [out] at entering
    refine ⟨fun _ => posted,entered,fun _ => posted.imp_right (Or.imp ?_ entered)⟩
    rintro ⟨poster,posting⟩
    exact ⟨poster,by simp [Bridge.setWaking,posting]⟩
  · have posting : update bridge.waking name Waking.posting name = .posting := by simp
    exact ⟨fun _ => .inr (.inl ⟨name,posting⟩),sound.entered,fun _ => .inr (.inl ⟨name,by simp [Bridge.setWaking]⟩)⟩

theorem post_sound (own : pays = 0 ∨ name = ui ∧ bridge.entering = false) (sound : bridge.Sound) :
    (bridge.post name pays).Sound := by
  refine ⟨fun _ => .inl (succ_pos _),fun entering => ?_,fun _ => .inl (succ_pos _)⟩
  obtain rfl | ⟨_,out⟩ := own
  · exact sound.entered entering
  · exact absurd (out.symm.trans entering) false_ne_true

theorem next_sound (entered : bridge.entering = false) (sound : bridge.Sound) : bridge.next.2.Sound := by
  unfold Bridge.next
  split
  · rename_i empty
    refine ⟨sound.flagged,fun entering => absurd (entered.symm.trans entering) false_ne_true,fun filled => ?_⟩
    exact absurd (Ffi.Waking.pop_none empty) filled
  · rename_i queued inner popped
    exact ⟨sound.flagged,sound.entered,fun _ => sound.alert (by simp [Ffi.Waking.pop_queue popped])⟩

theorem Moves.sound (sound : bridge.Sound) (moves : Moves caps name bridge later) : later.Sound := by
  cases moves with
  | push event slot quiet => exact push_sound event slot quiet sound
  | exchange unposted own => exact exchange_sound unposted own sound
  | post own => exact post_sound own sound
  | deliver self =>
    unfold Bridge.deliver
    split
    · exact sound
    · exact ⟨fun _ => .inr (.inr rfl),fun _ => succ_pos _,fun _ => .inr (.inr (succ_pos _))⟩
  | clear self => exact ⟨fun flag => absurd flag false_ne_true,fun entering => absurd entering false_ne_true,
      sound.alert⟩
  | draining self draining => exact ⟨sound.flagged,sound.entered,sound.alert⟩
  | next self entered => exact next_sound entered sound
  | budgets events timeMs => exact ⟨sound.flagged,sound.entered,sound.alert⟩
  | rest => exact sound

end

section
variable {caps : EventCaps} {name : Nat} {bridge : Bridge} {block : Bridge → Prop}

/-- How the UI thread stands with its wake and its drains, and what `m_draining` is. -/
structure OnUi (waking : Waking) (entering : Bool) (owed : Nat) (draining : Bool) (bridge : Bridge) : Prop where
  waking : bridge.waking ui = waking
  entering : bridge.entering = entering
  owed : bridge.owed = owed
  draining : bridge.draining = draining

abbrev Settled (owed : Nat) (draining : Bool) : Bridge → Prop := OnUi .quiet false owed draining

def owedBy : List Frame → Nat
  | .dispatching _ :: _ => 1
  | _ => 0

abbrev Around (frames : List Frame) : Bridge → Prop := Settled (owedBy frames) (!frames.isEmpty)

def Framed (frames : List Frame) (bridge : Bridge) : Prop := frames.length ≤ 1 ∧ Around frames bridge

def Stands (name : Nat) : Turn → Bridge → Prop
  | .done,bridge => bridge.waking name = .quiet
  | .ui frames _,bridge => name = ui ∧ Framed frames bridge

abbrev UiSpec (caps : EventCaps) {α : Type} := Prog.Spec (α := α) (Moves caps) ui

theorem ui_stable : Prog.Stable (Moves caps) ui (OnUi far entering owed draining) := by
  intro other bridge later different moved holds
  have untouched := moved.untouched different
  exact ⟨untouched.waking.trans holds.waking,(untouched.entering rfl).trans holds.entering,
    (untouched.owed rfl).trans holds.owed,(untouched.draining rfl).trans holds.draining⟩

theorem waking_stable (waking : Waking) : Prog.Stable (Moves caps) name fun bridge => bridge.waking name = waking :=
  fun _ _ _ different moved holds => (moved.untouched different).waking.trans holds

theorem wake_spec : Prog.Spec (Moves caps) name block (fun bridge => bridge.waking name = .due)
    (reldexBridgeWakeImpl name) fun _ bridge => bridge.waking name = .quiet := by
  have exchanged : Prog.Spec (Moves caps) name block (fun bridge => bridge.waking name = .due)
      (Prog.modifyGet (Bridge.exchange name 0))
      fun set bridge => bridge.waking name = if set then .quiet else .posting := by
    refine .modifyGet (waking_stable _) (fun _ => waking_stable _) fun bridge due => ?_
    refine ⟨.exchange (by simp [due]) (.inl rfl),?_⟩
    unfold Bridge.exchange
    split <;> simp
  refine exchanged.bind ?_
  rintro (_ | _)
  · exact .modify (waking_stable _) (waking_stable _) fun bridge _ =>
      ⟨.post (.inl rfl),Bridge.setWaking_self name _ _⟩
  · exact .pure (waking_stable _) fun bridge quiet => quiet

variable (event : SessionEvent) (slot : Option SessionId)

theorem queueEvent_spec : Prog.Spec (Moves caps) name block (fun bridge => bridge.waking name = .quiet)
      (queueEvent caps name event slot) fun _ bridge => bridge.waking name = .quiet := by
  have pushed : Prog.Spec (Moves caps) name block (fun bridge => bridge.waking name = .quiet)
      (Prog.modifyGet (Bridge.push caps name event slot))
      fun wake bridge => bridge.waking name = if wake then .due else .quiet :=
    .modifyGet (waking_stable _) (fun _ => waking_stable _) fun bridge quiet =>
      ⟨.push event slot quiet,Bridge.setWaking_self name _ _⟩
  refine pushed.bind ?_
  rintro (_ | _)
  · exact .pure (waking_stable _) fun bridge quiet => quiet
  · exact wake_spec

theorem queueEvent_settled : UiSpec caps block (Settled owed draining) (queueEvent caps ui event slot)
      fun _ => Settled owed draining := by
  have acts : (queueEvent caps ui event slot).Acts (fun bridge later =>
      (bridge.entering = false ∧ bridge.owed = owed ∧ bridge.draining = draining) →
      later.entering = false ∧ later.owed = owed ∧ later.draining = draining) fun _ => True := by
    refine .bind (Prog.Only.modifyGet fun bridge kept => kept).acts ?_
    rintro (_ | _) _
    · exact .pure trivial
    refine .bind (Prog.Only.modifyGet fun bridge kept => ?_).acts ?_
    · unfold Bridge.exchange
      split <;> exact kept
    rintro (_ | _) _
    · exact (Prog.Only.modify fun bridge kept => kept).acts
    · exact .pure trivial
  have stable : Prog.Stable (Moves caps) ui fun bridge =>
      bridge.entering = false ∧ bridge.owed = owed ∧ bridge.draining = draining := by
    intro other bridge later different moved holds
    have untouched := moved.untouched different
    exact ⟨(untouched.entering rfl).trans holds.1,(untouched.owed rfl).trans holds.2.1,
      (untouched.draining rfl).trans holds.2.2⟩
  exact (((queueEvent_spec event slot).frame stable acts).from fun bridge holds =>
    ⟨holds.waking,holds.entering,holds.owed,holds.draining⟩).weaken fun _ bridge holds =>
    ⟨holds.1,holds.2.1,holds.2.2.1,holds.2.2.2⟩

theorem postDrain_spec : UiSpec caps block (Settled (owed + 1) draining) postDrain
    fun _ => Settled owed draining := by
  have exchanged : UiSpec caps block (Settled (owed + 1) draining)
      (Prog.modifyGet (Bridge.exchange ui 1)) fun set =>
        if set then Settled owed draining else OnUi .posting false (owed + 1) draining := by
    refine .modifyGet ui_stable (fun set => by cases set <;> exact ui_stable) fun bridge holds => ?_
    refine ⟨.exchange (by simp [holds.waking]) (.inr ⟨rfl,holds.entering⟩),?_⟩
    unfold Bridge.exchange
    split
    · have paid : bridge.owed - 1 = owed := by simp [holds.owed]
      exact ⟨Bridge.setWaking_self ui _ _,holds.entering,paid,holds.draining⟩
    · exact ⟨Bridge.setWaking_self ui _ _,holds.entering,holds.owed,holds.draining⟩
  refine exchanged.bind ?_
  rintro (_ | _)
  · refine .modify ui_stable ui_stable fun bridge holds => ⟨.post (.inr ⟨rfl,holds.entering⟩),?_⟩
    have paid : bridge.owed - 1 = owed := by simp [holds.owed]
    exact ⟨Bridge.setWaking_self ui _ _,holds.entering,paid,holds.draining⟩
  · exact .pure ui_stable fun bridge holds => holds

theorem takeNext_spec (rest : List Act) (events : Nat) :
    UiSpec caps block (Settled 1 true) (takeNext [] rest events) (Stands ui) := by
  have taken : UiSpec caps block (Settled 1 true) (Prog.modifyGet Bridge.next) fun found =>
      Settled (if found then 1 else 0) true := by
    refine .modifyGet ui_stable (fun _ => ui_stable) fun bridge holds => ⟨.next rfl holds.entering,?_⟩
    unfold Bridge.next
    split
    · have paid : bridge.owed - 1 = 0 := by simp [holds.owed]
      exact ⟨holds.waking,holds.entering,paid,holds.draining⟩
    · exact ⟨holds.waking,holds.entering,holds.owed,holds.draining⟩
  refine taken.bind ?_
  rintro (_ | _) <;> exact .pure ui_stable fun bridge holds => ⟨rfl,le_rfl,holds⟩

theorem drain_spec (rest : List Act) (single : frames.length ≤ 1) :
    UiSpec caps block (OnUi .quiet true (owedBy frames + 1) (!frames.isEmpty)) (drain frames rest)
      (Stands ui) := by
  have cleared : UiSpec caps block (OnUi .quiet true (owedBy frames + 1) (!frames.isEmpty))
      (.modify fun bridge => { bridge with drainPosted := false, entering := false }) fun _ =>
        Settled (owedBy frames + 1) (!frames.isEmpty) :=
    .modify ui_stable ui_stable fun bridge holds => ⟨.clear rfl,holds.waking,rfl,holds.owed,holds.draining⟩
  have read : UiSpec caps block (Settled (owedBy frames + 1) (!frames.isEmpty))
      (Prog.gets Bridge.draining) fun draining bridge =>
        draining = (!frames.isEmpty) ∧ Settled (owedBy frames + 1) (!frames.isEmpty) bridge :=
    .gets ui_stable (fun _ => ui_stable.given) fun bridge holds => ⟨.rest,holds.draining,holds⟩
  refine cleared.bind fun _ => read.bind fun draining => .given fun known => ?_
  cases frames with
  | cons frame around =>
    obtain rfl : draining = true := known
    exact postDrain_spec.bind fun _ => .pure ui_stable fun bridge holds => ⟨rfl,single,holds⟩
  | nil =>
    obtain rfl : draining = false := known
    have begun : UiSpec caps block (Settled 1 false)
        (.modify fun bridge => { bridge with draining := true }) fun _ => Settled 1 true :=
      .modify ui_stable ui_stable fun bridge holds =>
        ⟨.draining rfl true,holds.waking,holds.entering,holds.owed,rfl⟩
    exact begun.bind fun _ => takeNext_spec rest 0

theorem back_spec (rest : List Act) (elapsed : Nat) (frame : Frame) :
    UiSpec caps block (Settled (owedBy [frame]) true) (frame.back [] rest elapsed) (Stands ui) := by
  cases frame with
  | emitting =>
    have ended : UiSpec caps block (Settled 0 true)
        (.modify fun bridge => { bridge with draining := false }) fun _ => Settled 0 false :=
      .modify ui_stable ui_stable fun bridge holds =>
        ⟨.draining rfl false,holds.waking,holds.entering,holds.owed,rfl⟩
    exact ended.bind fun _ => .pure ui_stable fun bridge holds => ⟨rfl,by simp,holds⟩
  | dispatching events =>
    have read : UiSpec caps block (Settled 1 true) (Prog.gets (Bridge.budgetHit (events + 1) elapsed))
        fun _ => Settled 1 true :=
      .gets ui_stable (fun _ => ui_stable) fun bridge holds => ⟨.rest,holds⟩
    refine read.bind ?_
    rintro (_ | _)
    · exact takeNext_spec rest (events + 1)
    · exact postDrain_spec.bind fun _ => .pure ui_stable fun bridge holds => ⟨rfl,le_rfl,holds⟩

theorem perform_spec (act : Act) (rest : List Act) (single : frames.length ≤ 1) :
    UiSpec caps block (Around frames) (act.perform frames rest caps)
      (Stands ui) := by
  have stays : UiSpec caps block (Around frames)
      (pure (.ui frames rest)) (Stands ui) :=
    .pure ui_stable fun bridge holds => ⟨rfl,single,holds⟩
  cases act with
  | deliver =>
    have delivered : UiSpec caps block (Around frames)
        (Prog.modifyGet Bridge.deliver) fun found =>
          if found then OnUi .quiet true (owedBy frames + 1) (!frames.isEmpty)
          else Around frames := by
      refine .modifyGet ui_stable (fun found => by cases found <;> exact ui_stable) fun bridge holds =>
        ⟨.deliver rfl,?_⟩
      unfold Bridge.deliver
      split
      · exact holds
      · exact ⟨holds.waking,rfl,congrArg (· + 1) holds.owed,holds.draining⟩
    refine delivered.bind ?_
    rintro (_ | _)
    · exact stays
    · exact drain_spec rest single
  | queue event slot => exact (queueEvent_settled event slot).bind fun _ => stays
  | budgets events timeMs =>
    have set : UiSpec caps block (Around frames) (.modify fun bridge =>
        { bridge with drainEventBudget := events, drainTimeBudgetMs := timeMs }) fun _ =>
          Around frames :=
      .modify ui_stable ui_stable fun bridge holds =>
        ⟨.budgets events timeMs,holds.waking,holds.entering,holds.owed,holds.draining⟩
    exact set.bind fun _ => stays
  | back elapsed =>
    match frames with
    | [] => exact stays
    | [frame] => exact back_spec rest elapsed frame

def Unused (name : Nat) (bridge : Bridge) : Prop :=
  bridge.waking name = .quiet ∧ (name = ui → Settled 0 false bridge)

theorem unused_stable : Prog.Stable (Moves caps) name (Unused name) := by
  intro other bridge later different moved holds
  refine ⟨waking_stable _ other bridge later different moved holds.1,fun own => ?_⟩
  subst own
  exact ui_stable other bridge later different moved (holds.2 rfl)

theorem starts_spec (starts : Starts caps name p) :
    Prog.Spec (Moves caps) name block (Unused name) p (Stands name) := by
  cases starts with
  | ui acts => exact .pure unused_stable fun bridge unused => ⟨rfl,by simp,unused.2 rfl⟩
  | worker other event slot =>
    exact ((queueEvent_spec event slot).bind fun _ => .pure (waking_stable _) fun bridge quiet => quiet).from
      fun bridge unused => unused.1

theorem resumed_spec (again : Turn.resume caps turn = some p) :
    Prog.Spec (Moves caps) name block (Stands name turn) p (Stands name) := by
  cases turn with
  | done => cases again
  | ui frames acts =>
    cases acts with
    | nil => cases again
    | cons act rest =>
      obtain rfl := Option.some.inj again
      rintro bridge ⟨rfl,single,settled⟩
      exact perform_spec act rest single bridge settled

def protocol (caps : EventCaps) : Pool.Protocol (Turn.resume caps) (Starts caps) :=
  .ofGuarantees (Moves caps) (fun _ _ => False) Stands Unused Bridge.Sound (fun _ _ _ => Moves.sound)
    (fun _ => unused_stable) (fun _ _ _ => resumed_spec)
    fun _ _ starting => (starts_spec starting).from fun _ holds => holds.2

theorem start_follows (drainEventBudget drainTimeBudgetMs : Int) :
    Pool.Follows (protocol caps) ⟨.start drainEventBudget drainTimeBudgetMs,fun _ => none⟩ :=
  ⟨start_sound drainEventBudget drainTimeBudgetMs,fun _ _ thread => by simp at thread,
    fun _ _ => ⟨rfl,fun _ => ⟨rfl,rfl,rfl,rfl⟩⟩⟩

end

section
variable {caps : EventCaps} {drainEventBudget drainTimeBudgetMs : Int} {pool : Pool Bridge Turn}

/-- Whatever the threads do and in whatever order: when no drain is posted, each thread is done
with its wakes and the UI thread is in no drain, the hub's queue is empty. -/
theorem idle_bridge_left_nothing (run : Interleaved caps ⟨.start drainEventBudget drainTimeBudgetMs,fun _ => none⟩ pool)
    (unposted : pool.state.posted = 0)
    (awake : ∀ name p, pool.threads name = some p → pool.state.waking name = .quiet ∨ ∃ turn, p = .ret turn)
    (undrained : ∀ p, pool.threads ui = some p → pool.state.owed = 0 ∨ ∃ rest, p = .ret (.ui [] rest)) :
    pool.state.events.inner.queue = [] := by
  have follows : Pool.Follows (protocol caps) pool :=
    (start_follows drainEventBudget drainTimeBudgetMs).reachable run
  have quiet (name : Nat) : pool.state.waking name = .quiet := by
    cases thread : pool.threads name with
    | none => exact (follows.2.2 name thread).1
    | some p =>
      refine (awake name p thread).elim id ?_
      rintro ⟨turn,rfl⟩
      have stands : Stands name turn pool.state := follows.2.1 name _ thread _ .refl
      cases turn with
      | done => exact stands
      | ui frames rest =>
        obtain ⟨rfl,_,settled⟩ := stands
        exact settled.waking
  have paid : pool.state.owed = 0 := by
    cases thread : pool.threads ui with
    | none => exact ((follows.2.2 ui thread).2 rfl).owed
    | some p =>
      refine (undrained p thread).elim id ?_
      rintro ⟨rest,rfl⟩
      have stands : Stands ui (.ui [] rest) pool.state := follows.2.1 ui _ thread _ .refl
      exact stands.2.2.owed
  by_contra filled
  obtain posted | ⟨name,unquiet⟩ | owed := follows.1.alert filled
  · exact absurd unposted posted.ne.symm
  · exact unquiet (quiet name)
  · exact absurd paid owed.ne.symm

/-- Outside the steps of a drain: at most one is under way, its flag says so, and no wake is held
back for a drain that nobody posts. -/
theorem drains_do_not_nest (run : Interleaved caps ⟨.start drainEventBudget drainTimeBudgetMs,fun _ => none⟩ pool)
    (outside : pool.threads ui = some (.ret (.ui frames rest))) :
    frames.length ≤ 1 ∧ pool.state.draining = !frames.isEmpty ∧
    (pool.state.drainPosted = true → 0 < pool.state.posted ∨ ∃ name, pool.state.waking name = .posting) := by
  have follows := (start_follows drainEventBudget drainTimeBudgetMs).reachable run
  obtain ⟨_,few,settled⟩ : Stands ui (.ui frames rest) pool.state := follows.2.1 ui _ outside _ .refl
  have flagged := follows.1.flagged
  rw [settled.entering] at flagged
  exact ⟨few,settled.draining,by simpa using flagged⟩

end

open Ffi.Waking (single)

def acts : List Act := [.deliver,.back 0,.deliver,.back 0,.deliver,.back 0]

def wokenPool : Pool Bridge Turn :=
  Pool.ran ⟨.start 1 0,fun _ => none⟩ 1 (queueEvent single 1 (.opened 1 1) none >>= fun _ => pure .done)

def actedPool : List (List Frame) → List Act → Pool Bridge Turn → Pool Bridge Turn
  | frames :: later,act :: rest,pool => actedPool later rest (pool.ran ui (act.perform frames rest single))
  | _,_,pool => pool

def nestedPool : Pool Bridge Turn :=
  actedPool [[],[.dispatching 0],[.emitting]] acts (wokenPool.ran ui (pure (.ui [] acts)))

def idlePool : Pool Bridge Turn :=
  actedPool [[],[.dispatching 0],[.emitting],[.emitting],[],[.emitting]] acts (wokenPool.ran ui (pure (.ui [] acts)))

theorem nestedPool_run : Interleaved single ⟨.start 1 0,fun _ => none⟩ nestedPool := by
  have begun : Interleaved single ⟨.start 1 0,fun _ => none⟩ (wokenPool.ran ui (pure (.ui [] acts))) :=
    (Pool.begins_alone 1 rfl (.worker (by decide) (.opened 1 1) none) rfl).trans
      (Pool.begins_alone ui rfl (.ui acts) rfl)
  exact ((begun.trans (Pool.resumes_alone ui rfl rfl rfl)).trans (Pool.resumes_alone ui rfl rfl rfl)).trans
    (Pool.resumes_alone ui rfl rfl rfl)

theorem idlePool_run : Interleaved single ⟨.start 1 0,fun _ => none⟩ idlePool :=
  ((nestedPool_run.trans (Pool.resumes_alone ui rfl rfl rfl)).trans (Pool.resumes_alone ui rfl rfl rfl)).trans
    (Pool.resumes_alone ui rfl rfl rfl)

theorem nested_drain_went_back : nestedPool.threads ui = some (.ret (.ui [.emitting] [.back 0,.deliver,.back 0])) ∧
    nestedPool.state.draining = true ∧ nestedPool.state.drainPosted = true ∧
    (0 < nestedPool.state.posted ∨ ∃ name, nestedPool.state.waking name = .posting) :=
  have facts := drains_do_not_nest nestedPool_run
    (rfl : nestedPool.threads ui = some (.ret (.ui [.emitting] [.back 0,.deliver,.back 0])))
  ⟨rfl,facts.2.1,rfl,facts.2.2 rfl⟩

theorem budget_and_nesting_leave_nothing :
    Interleaved single ⟨.start 1 0,fun _ => none⟩ idlePool ∧ idlePool.state.posted = 0 ∧
    idlePool.threads ui = some (.ret (.ui [] [])) ∧ wokenPool.state.events.inner.queue ≠ [] ∧
    idlePool.state.events.inner.queue = [] := by
  refine ⟨idlePool_run,rfl,rfl,List.cons_ne_nil _ _,
    idle_bridge_left_nothing idlePool_run rfl (fun name p thread => .inl ?_) fun p _ => .inl rfl⟩
  have names : idlePool.state.waking = update (update (update (update
    (update (update (update (fun _ => .quiet) 1 .due) 1 .posting) 1 .quiet)
      ui .posting) ui .quiet) ui .posting) ui .quiet := rfl
  rw [names]
  simp [update_apply]

end Reldex.Ui
