import Reldex.DriverContract

/-! The rendezvous of a connect with a limit. The caller waits, gives up or unwinds while a helper
thread connects; in whatever order, a connection is returned or closed by exactly one of them. -/
namespace Reldex.OracleThin
open Relation

structure Handoff (τ : Type) where
  value : Option τ
  abandoned : Bool

namespace Handoff

/-- One turn of `wait` under the lock; without a result it goes on waiting. -/
def wait (expired : Bool) (h : Handoff τ) : Option (Except Unit τ) × Handoff τ :=
  match h.value with
  | some value => (some (.ok value),{ h with value := none })
  | none => if expired then (some (.error ()),{ h with abandoned := true }) else (none,h)

def deliver (value : τ) (h : Handoff τ) : Except τ Unit × Handoff τ :=
  if h.abandoned then (.error value,h) else (.ok (),{ h with value := some value })

def abandon (h : Handoff τ) : Option τ × Handoff τ := (h.value,⟨none,true⟩)

end Handoff

/-- The failure of a caller whose limit has passed, given as it is printed. -/
def expired (limit : String) : DbError :=
  .new .connection ("the database could not be reached within this connection's connect limit of " ++ limit ++
    ", so the attempt was abandoned. It is left to finish or fail on its own — the Oracle crate this driver wraps " ++
    "cannot bound a connect or stop one that has started (upstream gap U-15) — and if a session does open late it is " ++
    "closed rather than used. Raise the limit on the connection profile, or set the connection extension " ++
    "\"oracle.connect_timeout_unbounded\" to wait indefinitely")

def connection : Except DbError γ → List γ
  | .ok connection => [connection]
  | .error _ => []

theorem connection_length (result : Except DbError γ) : (connection result).length ≤ 1 := by
  cases result <;> simp [connection]

/-- A caller that is leaving still drops its guard. A frame that unwinds returns nothing. -/
inductive Caller (γ : Type) where
  | waiting
  | leaving (answer : Option (Except DbError γ))
  | left (answer : Option (Except DbError γ))

inductive Helper (γ : Type) where
  | connecting
  | delivering (result : Except DbError γ)
  | late (result : Except DbError γ)
  | ended

/-- A connect under way, with what has been produced and who has closed it. -/
structure Within (γ : Type) where
  handoff : Handoff (Except DbError γ)
  caller : Caller γ
  helper : Helper γ
  closedByCaller : List γ
  closedByHelper : List γ
  produced : List γ

def Within.start : Within γ := ⟨⟨none,false⟩,.waiting,.connecting,[],[],[]⟩

def Caller.returned : Caller γ → List γ
  | .left (some answer) => connection answer
  | _ => []

inductive Within.Step (limit : String) : Within γ → Within γ → Prop where
  -- a panic of the attempt is an error as well
  | attempts (result : Except DbError γ) (connecting : s.helper = .connecting) :
      Step limit s { s with helper := .delivering result, produced := connection result }
  -- the conversion of an error panics
  | dies (connecting : s.helper = .connecting) : Step limit s { s with helper := .ended }
  | delivers (delivering : s.helper = .delivering result) (accepted : s.handoff.deliver result = (.ok (),h)) :
      Step limit s { s with handoff := h, helper := .ended }
  | refused (delivering : s.helper = .delivering result) (refused : s.handoff.deliver result = (.error back,h)) :
      Step limit s { s with handoff := h, helper := .late back }
  | discards (late : s.helper = .late result) :
      Step limit s { s with helper := .ended, closedByHelper := s.closedByHelper ++ connection result }
  | collects (passed : Bool) (waiting : s.caller = .waiting) (found : s.handoff.wait passed = (some (.ok result),h)) :
      Step limit s { s with handoff := h, caller := .left (some result) }
  | expires (passed : Bool) (waiting : s.caller = .waiting) (gone : s.handoff.wait passed = (some (.error ()),h)) :
      Step limit s { s with handoff := h, caller := .leaving (some (.error (expired limit))) }
  | unwinds (waiting : s.caller = .waiting) : Step limit s { s with caller := .leaving none }
  | drops (leaving : s.caller = .leaving answer) (taken : s.handoff.abandon = (kept,h)) :
      Step limit s { s with
        handoff := h, caller := .left answer, closedByCaller := s.closedByCaller ++ kept.toList.flatMap connection }

def Helper.holds : Helper γ → List γ
  | .delivering result => connection result
  | .late result => connection result
  | _ => []

/-- A caller without a connection, and whether it has given up. -/
inductive Calm : Caller γ → Bool → Prop where
  | waiting : Calm .waiting false
  | unwinding : Calm (.leaving none) false
  | expired (failure : DbError) : Calm (.leaving (some (.error failure))) true
  | unwound : Calm (.left none) true
  | failed (failure : DbError) : Calm (.left (some (.error failure))) true

inductive Stage : Within γ → Prop where
  | empty (calm : Calm caller gone) (few : produced.length ≤ 1) (whole : closed ++ helper.holds = produced)
      (first : helper ≠ .ended → closed = []) : Stage ⟨⟨none,gone⟩,caller,helper,[],closed,produced⟩
  | delivered (calm : Calm caller false) : Stage ⟨⟨some result,false⟩,caller,.ended,[],[],connection result⟩
  | collected : Stage ⟨⟨none,false⟩,.left (some result),.ended,[],[],connection result⟩
  | takenBack : Stage ⟨⟨none,true⟩,.left none,.ended,connection result,[],connection result⟩

theorem Stage.step {s next : Within γ} (stage : Stage s) (step : s.Step limit next) : Stage next := by
  cases stage with
  | @empty _ gone _ _ _ calm few whole first =>
    cases step with
    | attempts result connecting =>
      cases connecting
      exact .empty calm (connection_length result) (by rw [first (by simp)]; rfl) fun _ => first (by simp)
    | dies connecting =>
      cases connecting
      exact .empty calm few whole fun busy => absurd rfl busy
    | delivers delivering accepted =>
      cases delivering
      cases first (by simp)
      cases whole
      cases gone <;> cases accepted
      exact .delivered calm
    | refused delivering refused =>
      cases delivering
      cases gone <;> cases refused
      exact .empty calm few whole fun _ => first (by simp)
    | discards late =>
      cases late
      exact .empty calm few (by simpa [Helper.holds] using whole) fun busy => absurd rfl busy
    | collects passed waiting found => cases passed <;> cases found
    | expires passed waiting late =>
      cases passed <;> cases late
      exact .empty (.expired _) few whole first
    | unwinds waiting =>
      cases waiting
      cases calm
      exact .empty .unwinding few whole first
    | drops leaving taken =>
      cases leaving
      cases taken
      cases calm
      · exact .empty .unwound few whole first
      · exact .empty (.failed _) few whole first
  | delivered calm =>
    cases step with
    | collects _ waiting found =>
      cases found
      exact .collected
    | expires _ waiting late => cases late
    | unwinds waiting => exact .delivered .unwinding
    | drops leaving taken =>
      cases leaving
      cases taken
      cases calm
      simpa using Stage.takenBack
    | attempts _ busy | dies busy | delivers busy | refused busy | discards busy => cases busy
  | collected | takenBack =>
    cases step with
    | collects _ there | expires _ there | unwinds there | drops there => cases there
    | attempts _ busy | dies busy | delivers busy | refused busy | discards busy => cases busy

def Within.fates (s : Within γ) : List γ := s.caller.returned ++ s.closedByCaller ++ s.closedByHelper

def Within.pending (s : Within γ) : List γ := s.helper.holds ++ s.handoff.value.toList.flatMap connection

theorem Calm.returned_nil (calm : Calm caller gone) : caller.returned = [] := by
  cases calm <;> rfl

def Within.Panics (s next : Within γ) : Prop :=
  (s.caller = .waiting ∧ next.caller = .leaving none) ∨ (s.helper = .connecting ∧ next.helper = .ended)

/-- Without a panic both sides have something left to do until they are through: a waiting caller collects
what was delivered or runs into its limit. -/
theorem Within.through {s : Within γ} (stuck : ∀ next, s.Step limit next → s.Panics next) :
    (∃ answer, s.caller = .left answer) ∧ s.helper = .ended := by
  constructor
  · have moved {next : Within γ} (step : s.Step limit next) (same : next.helper = s.helper) :
        s.caller = .waiting ∧ next.caller = .leaving none := by
      rcases stuck next step with panic | ⟨busy,panic⟩
      · exact panic
      · cases (same.trans busy).symm.trans panic
    cases there : s.caller with
    | waiting =>
      cases value : s.handoff.value with
      | some result =>
        have found : s.handoff.wait false = (some (.ok result),{ s.handoff with value := none }) := by
          simp [Handoff.wait,value]
        cases (moved (.collects false there found) rfl).2
      | none =>
        have late : s.handoff.wait true = (some (.error ()),{ s.handoff with abandoned := true }) := by
          simp [Handoff.wait,value]
        cases (moved (.expires true there late) rfl).2
    | leaving answer => cases there.symm.trans (moved (.drops there rfl) rfl).1
    | left answer => exact ⟨answer,rfl⟩
  · have moved {next : Within γ} (step : s.Step limit next) (same : next.caller = s.caller) :
        s.helper = .connecting ∧ next.helper = .ended := by
      rcases stuck next step with ⟨waits,panic⟩ | panic
      · cases (same.trans waits).symm.trans panic
      · exact panic
    cases busy : s.helper with
    | connecting => cases (moved (.attempts (.error (expired limit)) busy) rfl).2
    | delivering result =>
      cases gone : s.handoff.abandoned with
      | true => cases busy.symm.trans (moved (.refused busy (if_pos gone)) rfl).1
      | false => cases busy.symm.trans (moved (.delivers busy (if_neg (by simp [gone]))) rfl).1
    | late result => cases busy.symm.trans (moved (.discards busy) rfl).1
    | ended => rfl

theorem Within.Step.failed {s next : Within γ} (step : s.Step limit next)
    (late : s.caller = .leaving (some (.error (expired limit))) ∨ s.caller = .left (some (.error (expired limit)))) :
    next.caller = .leaving (some (.error (expired limit))) ∨ next.caller = .left (some (.error (expired limit))) := by
  cases step with
  | collects _ waiting | expires _ waiting | unwinds waiting => simp [waiting] at late
  | drops leaving => exact .inr (by simpa [leaving] using late)
  | _ => exact late

/-- In every order of events at most one connection is produced, and it is always in one place: returned,
closed by one of the sides, or still to be handed over. Where only a panic could follow, nothing is to be
handed over and the caller has left. A caller that has timed out returns none. -/
theorem connection_is_handed_over_once {limit : String} {s : Within γ}
    (run : ReflTransGen (Within.Step limit) .start s) :
    s.produced.length ≤ 1 ∧ s.fates ++ s.pending = s.produced ∧
    ((∀ next, s.Step limit next → s.Panics next) → s.pending = [] ∧ ∃ answer, s.caller = .left answer) ∧
    (s.caller = .leaving (some (.error (expired limit))) → ∀ later,
      ReflTransGen (Within.Step limit) s later → later.caller.returned = []) := by
  have stage : Stage s := by
    induction run with
    | refl => exact .empty .waiting (by simp) rfl fun _ => rfl
    | tail _ step ih => exact ih.step step
  refine ⟨?_,?_,fun stuck => ?_,fun late later after => ?_⟩
  · cases stage with
    | empty _ few => exact few
    | _ => exact connection_length _
  · cases stage with
    | empty calm _ whole => simpa [Within.fates,Within.pending,calm.returned_nil] using whole
    | delivered calm => simp [Within.fates,Within.pending,calm.returned_nil,Helper.holds]
    | _ => simp [Within.fates,Within.pending,Caller.returned,Helper.holds]
  · obtain ⟨⟨answer,left⟩,ended⟩ := Within.through stuck
    refine ⟨?_,answer,left⟩
    cases stage with
    | empty => simp_all [Within.pending,Helper.holds]
    | delivered calm =>
      cases left
      cases calm
    | _ => rfl
  · have failed : later.caller = .leaving (some (.error (expired limit))) ∨ later.caller = .left (some (.error (expired limit))) := by
      induction after with
      | refl => exact .inl late
      | tail _ step ih => exact step.failed ih
    rcases failed with same | same <;> rw [same] <;> rfl

/-- The connection comes after the limit has passed. -/
theorem late_connection_is_closed : ∃ s : Within Unit,
    s.closedByHelper = [()] ∧ s.fates ++ s.pending = s.produced ∧ s.pending = [] := by
  have expires : ReflTransGen (Within.Step "5.0s") (.start : Within Unit) _ := .single (.expires true rfl rfl)
  have run := (((expires.tail (.attempts (.ok ()) rfl)).tail (.refused rfl rfl)).tail (.drops rfl rfl)).tail (.discards rfl)
  obtain ⟨_,placed,settled,_⟩ := connection_is_handed_over_once run
  refine ⟨_,rfl,placed,(settled fun next step => ?_).1⟩
  cases step <;> contradiction

end Reldex.OracleThin
