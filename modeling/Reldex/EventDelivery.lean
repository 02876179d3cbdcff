import Reldex.EventStreams

/-! What the consumer of the queue can rely on, over every interleaving of pushes and pops.
Each session's events arrive in the order they were pushed and none is lost, the output past
the cap apart; and every line of output is delivered, queued, or counted as dropped. -/
namespace Reldex
open List Nat

def Stream.contents (stream : Stream) : List SessionEvent := stream.delivered ++ stream.waiting

def QueueOp.pushedEvent : QueueOp → Option SessionEvent
  | .push event _ => some event
  | .pop => none

def pushedBy (session : SessionId) (ops : List QueueOp) : List SessionEvent :=
  (ops.filterMap QueueOp.pushedEvent).filter (·.session == session)

namespace Stream

def plain (events : List SessionEvent) : List SessionEvent := events.filter fun event => !event.isUnsolicited

@[simp] theorem plain_append (first later : List SessionEvent) : plain (first ++ later) = plain first ++ plain later :=
  filter_append ..

theorem plain_fold (possiblyActive : Bool) (events : List SessionEvent) :
    plain (events.map (·.withPossiblyActive possiblyActive)) = plain events := by
  induction events with
  | nil => rfl
  | cons event rest ih =>
    unfold plain at ih ⊢
    rw [map_cons,filter_cons,filter_cons,Inner.withPossiblyActive_isUnsolicited,ih]
    cases capped : event.isUnsolicited with
    | true => rfl
    | false =>
      have other : event.isTransaction = false := by
        cases event <;> first | rfl | simp [SessionEvent.isUnsolicited] at capped
      rw [Inner.withPossiblyActive_other possiblyActive event other]

theorem plain_push (cap : Nat) (stream : Stream) (event : SessionEvent) :
    plain (stream.push cap event).contents = plain stream.contents ++ plain [event] := by
  cases event with
  | transactionStateChanged session possiblyActive =>
    have capped : plain [.transactionStateChanged session possiblyActive] = [] := rfl
    simp only [push]
    split <;> simp [contents,plain_fold,capped]
  | serverOutput session lines dropped failure invalidUtf8Lines =>
    have capped : ∀ lines dropped, plain [.serverOutput session lines dropped failure invalidUtf8Lines] = [] :=
      fun _ _ => rfl
    simp only [push]
    split
    · split <;> simp [contents,output,capped]
    · simp [contents,output,capped]
  | _ => simp [push,contents]

theorem contents_take (stream : Stream) : stream.take.contents = stream.contents := by
  unfold take
  split
  · rfl
  · rename_i event rest waits
    simp [contents,waits]

theorem plain_run (cap : Nat) (happenings : List Happening) :
    plain (run cap happenings).contents = plain (happenings.filterMap Happening.pushedEvent) := by
  induction happenings using reverseRecOn with
  | nil => rfl
  | append_singleton earlier happening ih =>
    rw [Traffic.run_concat,filterMap_append,plain_append,← ih]
    cases happening with
    | pushed event => exact plain_push cap _ event
    | delivered event => simp [happens,contents_take,Happening.pushedEvent,plain]

end Stream

namespace Traffic
variable (caps : EventCaps) (ops : List QueueOp)

theorem step_concat (op : QueueOp) : run caps (ops ++ [op]) = (run caps ops).step caps op := by
  simp [run]

theorem run_pushed : (run caps ops).trace.filterMap Happening.pushedEvent = ops.filterMap QueueOp.pushedEvent := by
  induction ops using reverseRecOn with
  | nil => rfl
  | append_singleton earlier op ih =>
    rw [step_concat,filterMap_append,← ih]
    cases op with
    | push event slot => exact filterMap_append
    | pop =>
      simp only [step]
      split
      · simp [filterMap_cons,QueueOp.pushedEvent]
      · simp [filterMap_cons,Happening.pushedEvent,QueueOp.pushedEvent]

theorem filter_pushed (session : SessionId) (happenings : List Happening) :
    (happenings.filter (·.session == session)).filterMap Happening.pushedEvent =
      (happenings.filterMap Happening.pushedEvent).filter (·.session == session) := by
  induction happenings with
  | nil => rfl
  | cons happening rest ih =>
    cases happening with
    | pushed event =>
      by_cases own : event.session = session <;> simp [Happening.pushedEvent,own,ih]
    | delivered event =>
      by_cases own : event.session = session <;> simp [filterMap_cons,Happening.pushedEvent,own,ih]

theorem run_pushedBy (session : SessionId) :
    ((run caps ops).trace.filter (·.session == session)).filterMap Happening.pushedEvent = pushedBy session ops := by
  rw [filter_pushed,run_pushed]
  rfl

/-- Whatever is pushed and taken in between, a session's stream is what its own pushes and
deliveries make of it; nothing but its own output and states is ever dropped or folded. -/
theorem delivery_is_lossless_and_in_order (ops : List QueueOp) (session : SessionId) : (run caps ops).stream session =
      Stream.run caps.maxUnsolicitedPerSession.val ((run caps ops).trace.filter (·.session == session)) ∧
    ((run caps ops).trace.filter (·.session == session)).filterMap Happening.pushedEvent = pushedBy session ops ∧
    Stream.plain ((run caps ops).stream session).contents = Stream.plain (pushedBy session ops) ∧
    (∀ event slot, event.session ≠ session →
      (run caps (ops ++ [.push event slot])).stream session = (run caps ops).stream session) ∧
    ∀ queued inner, (run caps ops).shared.inner.pop = some (queued,inner) → queued.event.session ≠ session →
      (run caps (ops ++ [.pop])).stream session = (run caps ops).stream session := by
  have streams := (run_agrees caps ops).streams session
  have own := run_pushedBy caps ops session
  refine ⟨streams,own,?_,fun event slot other => ?_,fun queued inner popped other => ?_⟩
  · rw [streams,Stream.plain_run,own]
  · rw [(run_agrees caps _).streams session,streams,step_concat]
    simp [step,other]
  · rw [(run_agrees caps _).streams session,streams,step_concat]
    simp [step,popped,other]

def truncated : List QueueOp :=
  [.push (.serverOutput 1 ["a"] 0 none 0) none,.push (.serverOutput 1 ["b"] 0 none 0) none,.pop,
    .push (.serverOutput 1 ["c"] 0 none 0) none]

/-- Output that was pushed below the cap is not delivered as it was pushed: it reports the
line that was dropped before it. -/
theorem output_reports_earlier_drops :
    ((run ⟨⟨1,by decide⟩⟩ truncated).stream 1).contents = [.serverOutput 1 ["a"] 0 none 0,.serverOutput 1 ["c"] 1 none 0] := rfl

end Traffic

def SessionEvent.lineCount : SessionEvent → Nat
  | .serverOutput _ lines _ _ _ => lines.length
  | _ => 0

def SessionEvent.droppedCount : SessionEvent → Nat
  | .serverOutput _ _ dropped _ _ => dropped
  | _ => 0

def lineCount (events : List SessionEvent) : Nat := (events.map SessionEvent.lineCount).sum
def droppedCount (events : List SessionEvent) : Nat := (events.map SessionEvent.droppedCount).sum

@[simp] theorem lineCount_append (first later : List SessionEvent) :
    lineCount (first ++ later) = lineCount first + lineCount later := by simp [lineCount]

@[simp] theorem droppedCount_append (first later : List SessionEvent) :
    droppedCount (first ++ later) = droppedCount first + droppedCount later := by simp [droppedCount]

@[simp] theorem lineCount_single (event : SessionEvent) : lineCount [event] = event.lineCount := by simp [lineCount]

@[simp] theorem droppedCount_single (event : SessionEvent) : droppedCount [event] = event.droppedCount := by
  simp [droppedCount]

theorem counts_fold (possiblyActive : Bool) (events : List SessionEvent) :
    lineCount (events.map (·.withPossiblyActive possiblyActive)) = lineCount events ∧
      droppedCount (events.map (·.withPossiblyActive possiblyActive)) = droppedCount events := by
  unfold lineCount droppedCount
  rw [map_map,map_map]
  constructor <;> exact congrArg sum (map_congr_left fun event _ => by cases event <;> rfl)

theorem saturatingAdd32_eq (fits : a + b ≤ u32Max) : saturatingAdd32 a b = a + b := min_eq_left fits

namespace Stream

/-- Every line that was pushed: delivered or waiting, or dropped and reported, or yet to be
reported. -/
def lines (stream : Stream) : Nat := lineCount stream.contents + droppedCount stream.contents + stream.pending

theorem lines_push {stream : Stream} (small : stream.pending ≤ u32Max) (unreported : event.droppedCount = 0)
    (exact : stream.atCap cap → stream.pending + event.lineCount ≤ u32Max) :
    (stream.push cap event).lines = stream.lines + event.lineCount ∧ (stream.push cap event).pending ≤ u32Max := by
  cases event with
  | transactionStateChanged session possiblyActive =>
    simp only [push]
    split
    · simp [lines,contents,counts_fold,SessionEvent.lineCount,small]
    · simp [lines,contents,SessionEvent.lineCount,SessionEvent.droppedCount,small]
  | serverOutput session output dropped failure invalidUtf8Lines =>
    obtain rfl : dropped = 0 := unreported
    simp only [push]
    split
    · rename_i full
      have fits : stream.pending + output.length ≤ u32Max := exact full
      have counted : saturatingAdd32 stream.pending (min output.length u32Max) = stream.pending + output.length := by
        rw [min_eq_left (by omega),saturatingAdd32_eq fits]
      rw [counted]
      split
      · have reported : saturatingAdd32 0 (stream.pending + output.length) = stream.pending + output.length := by
          rw [saturatingAdd32_eq (by omega),zero_add]
        simp only [Stream.output,reported,lines,contents,SessionEvent.lineCount,SessionEvent.droppedCount,
          lineCount_append,droppedCount_append,lineCount_single,droppedCount_single,length_nil]
        omega
      · simp only [lines,contents,SessionEvent.lineCount,lineCount_append,droppedCount_append]
        omega
    · have reported : saturatingAdd32 0 stream.pending = stream.pending := by
        rw [saturatingAdd32_eq (by omega),zero_add]
      simp only [Stream.output,reported,lines,contents,SessionEvent.lineCount,SessionEvent.droppedCount,
        lineCount_append,droppedCount_append,lineCount_single,droppedCount_single]
      omega
  | _ => simp [push,lines,contents,SessionEvent.lineCount,SessionEvent.droppedCount,small]

theorem lines_take (stream : Stream) : stream.take.lines = stream.lines ∧ stream.take.pending = stream.pending := by
  have same : stream.take.pending = stream.pending := by
    unfold take
    split <;> rfl
  exact ⟨by rw [lines,lines,contents_take,same],same⟩

end Stream

namespace Traffic
variable (caps : EventCaps)

/-- At every moment the lines a session pushed are those delivered or queued, those that an
event reports as dropped, and those still to be reported, as long as that count fits. -/
theorem dropped_output_is_counted (ops : List QueueOp) (session : SessionId)
    (unreported : ∀ event ∈ pushedBy session ops, event.droppedCount = 0)
    (exact : ∀ earlier event slot later, ops = earlier ++ .push event slot :: later → event.session = session →
      ((run caps earlier).stream session).atCap caps.maxUnsolicitedPerSession.val →
      (run caps earlier).shared.pendingDroppedLines session + event.lineCount ≤ u32Max) :
    lineCount (pushedBy session ops) =
      lineCount ((run caps ops).stream session).contents + droppedCount ((run caps ops).stream session).contents +
        (run caps ops).shared.pendingDroppedLines session := by
  suffices kept : lineCount (pushedBy session ops) = ((run caps ops).stream session).lines ∧
      ((run caps ops).stream session).pending ≤ u32Max from kept.1
  induction ops using reverseRecOn with
  | nil => exact ⟨rfl,zero_le _⟩
  | append_singleton earlier op ih =>
    have pushed : pushedBy session (earlier ++ [op]) = pushedBy session earlier ++ pushedBy session [op] := by
      simp [pushedBy]
    rw [pushed] at unreported ⊢
    obtain ⟨counted,small⟩ := ih (fun event member => unreported event (mem_append_left _ member))
      fun before event slot later whole => exact before event slot (later ++ [op]) (by simp [whole])
    have before := (run_agrees caps earlier).streams session
    rw [(run_agrees caps (earlier ++ [op])).streams session,step_concat,lineCount_append,counted]
    cases op with
    | push event slot =>
      by_cases own : event.session = session
      · have single : pushedBy session [.push event slot] = [event] := by simp [pushedBy,QueueOp.pushedEvent,own]
        rw [single] at unreported ⊢
        have moved := Stream.lines_push small (unreported event (by simp)) (exact earlier event slot [] rfl own)
        simp only [step,filter_append,filter_cons,filter_nil,Happening.session_pushed,own,
          beq_self_eq_true,↓reduceIte,run_concat,Stream.happens,← before,lineCount_single]
        exact ⟨moved.1.symm,moved.2⟩
      · have none : pushedBy session [.push event slot] = [] := by simp [pushedBy,QueueOp.pushedEvent,own]
        simp only [step,none,filter_append,filter_cons,filter_nil,Happening.session_pushed,own,
          beq_iff_eq,↓reduceIte,append_nil,← before]
        exact ⟨rfl,small⟩
    | pop =>
      have none : pushedBy session [.pop] = [] := rfl
      simp only [step,none]
      split
      · rw [← before]
        exact ⟨rfl,small⟩
      · rename_i queued inner popped
        by_cases own : queued.event.session = session
        · simp only [filter_append,filter_cons,filter_nil,Happening.session_delivered,own,
            beq_self_eq_true,↓reduceIte,run_concat,Stream.happens,← before]
          obtain ⟨same,pending⟩ := Stream.lines_take ((run caps earlier).stream session)
          exact ⟨same.symm,pending ▸ small⟩
        · simp only [filter_append,filter_cons,filter_nil,Happening.session_delivered,own,
            beq_iff_eq,↓reduceIte,append_nil,← before]
          exact ⟨rfl,small⟩

theorem pending_le (cap : Nat) (happenings : List Happening) :
    (Stream.run cap happenings).pending ≤ lineCount (happenings.filterMap Happening.pushedEvent) := by
  induction happenings using reverseRecOn with
  | nil => exact le_refl 0
  | append_singleton earlier happening ih =>
    rw [run_concat,filterMap_append,lineCount_append]
    cases happening with
    | delivered event => exact ((Stream.lines_take _).2.trans_le ih).trans (le_add_right _ _)
    | pushed event =>
      have single : [Happening.pushed event].filterMap Happening.pushedEvent = [event] := rfl
      rw [single,lineCount_single]
      refine Nat.le_trans ?_ (Nat.add_le_add_right ih event.lineCount)
      cases event with
      | transactionStateChanged session possiblyActive =>
        simp only [Stream.happens,Stream.push]
        split <;> simp
      | serverOutput session lines dropped failure invalidUtf8Lines =>
        simp only [Stream.happens,Stream.push]
        split
        · split
          · simp [Stream.output]
          · exact (Nat.min_le_left _ _).trans (Nat.add_le_add_left (Nat.min_le_left _ _) _)
        · simp [Stream.output]
      | _ => simp [Stream.happens,Stream.push]

theorem fits_of_few (few : lineCount (pushedBy session ops) ≤ u32Max)
    (whole : ops = earlier ++ .push event slot :: later) (own : event.session = session) :
    (run caps earlier).shared.pendingDroppedLines session + event.lineCount ≤ u32Max := by
  have pending : (run caps earlier).shared.pendingDroppedLines session ≤ lineCount (pushedBy session earlier) := by
    rw [← run_pushedBy caps]
    exact (congrArg Stream.pending ((run_agrees caps earlier).streams session)).trans_le (pending_le _ _)
  have all : lineCount (pushedBy session ops) =
      lineCount (pushedBy session earlier) + event.lineCount + lineCount (pushedBy session later) := by
    simp [whole,pushedBy,QueueOp.pushedEvent,own,lineCount]
    omega
  omega

theorem truncated_output_is_counted : lineCount (pushedBy 1 truncated) = 3 ∧
    3 = lineCount ((run ⟨⟨1,by decide⟩⟩ truncated).stream 1).contents +
      droppedCount ((run ⟨⟨1,by decide⟩⟩ truncated).stream 1).contents +
      (run ⟨⟨1,by decide⟩⟩ truncated).shared.pendingDroppedLines 1 := by
  have three : lineCount (pushedBy 1 truncated) = 3 := rfl
  refine ⟨three,three.symm.trans (dropped_output_is_counted ⟨⟨1,by decide⟩⟩ truncated 1 ?_
    fun earlier event slot later whole own _ => fits_of_few _ (by rw [three]; decide) whole own)⟩
  have pushed : pushedBy 1 truncated = [.serverOutput 1 ["a"] 0 none 0,.serverOutput 1 ["b"] 0 none 0,
    .serverOutput 1 ["c"] 0 none 0] := rfl
  rw [pushed]
  simp [SessionEvent.droppedCount]

def newestState (events : List SessionEvent) : Option Bool :=
  events.reverse.findSome? fun
    | .transactionStateChanged _ possiblyActive => some possiblyActive
    | _ => none

theorem newestState_concat (events : List SessionEvent) (event : SessionEvent) :
    newestState (events ++ [event]) = (newestState [event]).or (newestState events) := by
  rw [newestState,reverse_append,findSome?_append]
  rfl

theorem newestState_fold (possiblyActive : Bool) (before : List SessionEvent) {events : List SessionEvent}
    (waits : events.any SessionEvent.isTransaction = true) :
    newestState (before ++ events.map (·.withPossiblyActive possiblyActive)) = some possiblyActive := by
  induction events using reverseRecOn with
  | nil => cases waits
  | append_singleton rest event ih =>
    rw [map_append,← append_assoc,map_singleton,newestState_concat]
    cases event with
    | transactionStateChanged => rfl
    | _ => exact ih (by simpa [SessionEvent.isTransaction] using waits)

theorem newestState_push (cap : Nat) (stream : Stream) (event : SessionEvent) :
    newestState (stream.push cap event).contents = newestState (stream.contents ++ [event]) := by
  cases event with
  | transactionStateChanged session possiblyActive =>
    simp only [Stream.push]
    split
    · next waits =>
      rw [newestState_concat]
      exact newestState_fold possiblyActive _ waits
    · rw [Stream.contents,Stream.contents,append_assoc]
  | serverOutput session lines dropped failure invalidUtf8Lines =>
    simp only [Stream.push,Stream.contents,Stream.output]
    split
    · split
      · rw [← append_assoc,newestState_concat,newestState_concat]; rfl
      · rw [newestState_concat]; rfl
    · rw [← append_assoc,newestState_concat,newestState_concat]; rfl
  | _ => simp only [Stream.push,Stream.contents,append_assoc]

/-- States are folded while they wait, yet whoever applies a session's events in order ends with the
newest state that was pushed. -/
theorem newest_state_comes_last (caps : EventCaps) (ops : List QueueOp) (session : SessionId) :
    newestState ((run caps ops).stream session).contents = newestState (pushedBy session ops) := by
  rw [(run_agrees caps ops).streams session,← run_pushedBy caps]
  generalize (run caps ops).trace.filter (·.session == session) = happenings
  induction happenings using reverseRecOn with
  | nil => rfl
  | append_singleton earlier happening ih =>
    rw [run_concat]
    cases happening with
    | pushed event =>
      rw [Stream.happens,newestState_push,newestState_concat,ih,← newestState_concat,filterMap_append]
      rfl
    | delivered event => simpa [filterMap_cons,Stream.happens,Stream.contents_take,Happening.pushedEvent] using ih

end Traffic
end Reldex
