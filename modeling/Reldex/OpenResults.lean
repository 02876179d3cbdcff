import Reldex.GridResults

/-! The results that a session has open. The controller remembers one; a result that it puts away
without a close that the hub accepts stays open. -/
namespace Reldex.Ui
open List Relation

section
variable {env : Env} {s t u : System}

def System.closing (s : System) (result : Nat) : Prop := ∃ p ∈ s.hub.pending, p.kind = .resultClosed ∧ p.result = result

/-- A result that is shown is replaced only by a statement whose close of it is accepted. -/
def Orderly (env : Env) (s : System) : Move → Prop
  | .call .execute | .event (.opened ..) => s.resultId ≠ 0 → s.Accepts env
  | .event (.executed _ _ (some _) _) => s.resultId = 0
  | _ => True

/-- Requests are added to the hub's queue and nothing else of its side changes; a result that is
put away has a close. -/
structure Grows (s t : System) : Prop where
  queue : s.hub.pending ⊆ t.hub.pending
  hub : t.hub = { s.hub with pending := t.hub.pending }
  gone : t.terminated = s.terminated
  closing : s.resultId ≠ 0 → t.resultId = s.resultId ∨ t.closing s.resultId

namespace Grows

theorem still (hub : t.hub = s.hub) (gone : t.terminated = s.terminated) (shown : s.resultId ≠ 0 → t.resultId = s.resultId) :
    Grows s t := by
  refine ⟨?_,?_,gone,fun some => .inl (shown some)⟩ <;> rw [hub]
  exact List.Subset.refl _

theorem trans (first : Grows s t) (second : Grows t u) : Grows s u where
  queue := List.Subset.trans first.queue second.queue
  hub := by rw [second.hub,first.hub]
  gone := second.gone.trans first.gone
  closing some := by
    obtain same | ⟨p,member,closes⟩ := first.closing some
    · exact same ▸ second.closing (same ▸ some)
    · exact .inr ⟨p,second.queue member,closes⟩

theorem accepted (s : System) (kind : EventKind) (about : Nat) : Grows s (s.accepted kind about) :=
  ⟨subset_append_left ..,rfl,rfl,fun _ => .inl rfl⟩

theorem closed (hub : t.hub = (s.accepted .resultClosed s.resultId).hub) (gone : t.terminated = s.terminated) : Grows s t := by
  refine ⟨?_,?_,gone,fun _ => .inr ⟨⟨s.nextRequestId,.resultClosed,s.resultId⟩,?_,rfl,rfl⟩⟩ <;> rw [hub]
  · exact subset_append_left ..
  · rfl
  · exact mem_append_right _ (mem_singleton_self _)

end Grows

theorem submitFetches_grows (env : Env) (s : System) : Grows s (s.submitFetches env) := by
  refine System.submitFetches_keeps (fun t grows _ => ?_) (fun t error grows => ?_) (Grows.still rfl rfl fun _ => rfl)
  · exact (grows.trans (.accepted t .fetched t.resultId)).trans (.still rfl rfl fun _ => rfl)
  · exact grows.trans (.still rfl rfl fun _ => rfl)

theorem Executes.grows (executes : Executes env s t) (accepts : s.resultId ≠ 0 → s.Accepts env) : Grows s t := by
  have replaced {u : System} (replaces : Replaces env s u) : Grows s u.clearGrid := by
    cases replaces with
    | kept refused same =>
      rw [same.2]
      exact .still rfl rfl fun shown => absurd (accepts shown) (refused shown)
    | closed _ same =>
      rw [same.2]
      exact .closed rfl rfl
  cases executes with
  | unopened => exact .still rfl rfl fun _ => rfl
  | refused replaces same =>
    rw [same.2]
    exact (replaced replaces).trans (.still rfl rfl fun _ => rfl)
  | @started u replaces _ =>
    exact ((replaced replaces).trans (.accepted _ .executed 0)).trans (.still rfl rfl fun _ => rfl)

theorem Reacts.grows (reacts : Reacts env p n s event t) (answers : Answers m p event)
    (orderly : Orderly env s (.event event)) : Grows s t := by
  cases reacts with
  | late _ same | moved _ _ _ same | answered _ _ _ _ same =>
    rw [same.2]
    exact .still rfl rfl fun _ => rfl
  | @opened u _ _ _ kind same number executes =>
    have accepts : s.resultId ≠ 0 → s.Accepts env := by
      cases answers with
      | opened => exact orderly
      | _ => cases kind
    obtain ⟨hub,gone,shown⟩ : u.hub = s.hub ∧ u.terminated = s.terminated ∧ u.resultId = s.resultId := by
      rw [same.2]
      exact ⟨rfl,rfl,rfl⟩
    refine (Grows.still hub gone fun _ => shown).trans (executes.grows ?_)
    rw [System.Accepts,shown,hub,number]
    exact accepts
  | lateStatement | released | unfetched | complete => exact .still rfl rfl fun _ => rfl
  | shown =>
    refine Grows.trans ?_ (submitFetches_grows env _)
    exact .still rfl rfl fun shown => absurd orderly shown
  | stale | landed =>
    refine Grows.trans ?_ (submitFetches_grows env _)
    exact .still rfl rfl fun _ => rfl

end

section
variable {env : Env} {s t : System} {move : Move} {opened : List Nat}

/-- The open results after a move. The reply to a close says that the result is gone, whether or
not its cursor reported an error. -/
def System.openAfter (s : System) (opened : List Nat) : Move → List Nat
  | .event (.executed _ _ (some result) _) => opened ++ [result]
  | .event (.resultClosed request _) =>
    opened.filter fun r => ∀ p ∈ s.hub.pending, p.request = request → p.result ≠ r
  | _ => opened

structure Tidy (opened : List Nat) (s : System) : Prop where
  gone : s.terminated = true → s.hub.ended = true
  positive : 0 < s.hub.nextResultId
  closed : s.hub.ended = false → ∀ r ∈ opened, r ≠ 0 ∧ (r = s.resultId ∨ s.closing r)

namespace Tidy

theorem grows (tidy : Tidy opened s) (grows : Grows s t) : Tidy opened t := by
  obtain ⟨queue,hub,gone,closing⟩ := grows
  refine ⟨?_,?_,fun lasts r member => ?_⟩
  · rw [gone,hub]
    exact tidy.gone
  · rw [hub]
    exact tidy.positive
  · rw [hub] at lasts
    obtain ⟨some,rfl | ⟨p,old,closes⟩⟩ := tidy.closed lasts r member
    · exact ⟨some,(closing some).imp_left Eq.symm⟩
    · exact ⟨some,.inr ⟨p,queue old,closes⟩⟩

theorem took (tidy : Tidy opened s) (queue : s.hub.pending = before ++ p :: rest) (event : HubEvent) (error : Option DbError) :
    Tidy (opened.filter fun r => ¬(p.kind = .resultClosed ∧ p.result = r)) (s.took (before ++ rest) p event error) := by
  refine ⟨tidy.gone,Nat.add_pos_left tidy.positive _,fun lasts r member => ?_⟩
  obtain ⟨member,unclosed⟩ := mem_filter.mp member
  refine (tidy.closed lasts r member).imp id (.imp id fun ⟨q,member,closes⟩ => ⟨q,?_,closes⟩)
  rw [queue] at member
  obtain old | rfl | new := mem_append.mp member |>.imp_right mem_cons.mp
  · exact mem_append_left _ old
  · exact absurd closes (of_decide_eq_true unclosed)
  · exact mem_append_right _ new

theorem reacts (tidy : Tidy opened s) (orderly : Orderly env s (.event event)) (queue : s.hub.pending = before ++ p :: rest)
    (answers : Answers s.hub.nextResultId p event) (alive : event.succeeds = true → s.hub.ended = false)
    (reacts : Reacts env p s.hub.nextResultId (s.took (before ++ rest) p event error) event t) :
    Tidy (s.openAfter opened (.event event)) t := by
  have kept := (tidy.took queue event error).grows (reacts.grows answers (by cases answers <;> exact orderly))
  refine { kept with closed := fun lasts r member => ?_ }
  cases answers with
  | result request rowsAffected =>
    obtain old | new := mem_append.mp member
    · exact kept.closed lasts r (mem_filter.mpr ⟨old,by simp⟩)
    · obtain rfl := mem_singleton.mp new
      refine ⟨tidy.positive.ne',.inl ?_⟩
      cases reacts with
      | shown =>
        rw [(submitFetches_record env _).1]
        rfl
      | late gone | lateStatement gone => exact absurd ((alive rfl).symm.trans (tidy.gone gone)) Bool.false_ne_true
      | moved _ kind => simp at kind
      | answered _ _ unopened => cases unopened
      | opened _ kind | released _ kind | stale _ kind | unfetched _ kind => cases kind
  | resultClosed request error =>
    obtain ⟨old,free⟩ := mem_filter.mp member
    have unclosed := of_decide_eq_true free _ (queue ▸ mem_append_right _ mem_cons_self) rfl
    exact kept.closed lasts r (mem_filter.mpr ⟨old,by simpa using unclosed⟩)
  | opened | failed | executed | unfetched | fetched | sessionClosed =>
    exact kept.closed lasts r (mem_filter.mpr ⟨member,by simp⟩)

theorem does (tidy : Tidy opened s) (orderly : Orderly env s move) (does : Does env s move t) :
    Tidy (s.openAfter opened move) t := by
  cases does with
  | nothing same | fails same =>
    rw [same.2]
    exact tidy.grows (.still rfl rfl fun _ => rfl)
  | @submits kind _ _ _ _ _ _ same =>
    rw [same.2]
    exact tidy.grows ((Grows.accepted s kind 0).trans (.still rfl rfl fun _ => rfl))
  | executes executes => exact tidy.grows (executes.grows orderly)
  | closes => exact tidy.grows (.closed rfl rfl)
  | tunes | switches => exact tidy.grows (.still rfl rfl fun _ => rfl)
  | fetches =>
    refine tidy.grows (Grows.trans ?_ (submitFetches_grows env _))
    exact .still rfl rfl fun _ => rfl
  | ends => exact ⟨fun _ => rfl,tidy.positive,by simp⟩
  | @hears _ event unanswered same =>
    have kept : Tidy opened t := by
      rw [same.2]
      exact tidy.grows (.still rfl rfl fun _ => rfl)
    cases event with
    | transactionState | terminal | ignored => exact kept
    | _ => cases unanswered
  | gone unanswered ended final same =>
    rw [same.2]
    exact ⟨fun _ => ended,tidy.positive,by simp [ended]⟩
  | reacts error queue answers _ alive reacts => exact tidy.reacts orderly queue answers alive reacts

end Tidy

/-- A step of which this holds, with a record of the results that the session has open. -/
def Recorded (env : Env) (holds : System → Move → Prop) (x y : System × List Nat) : Prop :=
  ∃ move, Step env x.1 move y.1 ∧ y.2 = x.1.openAfter x.2 move ∧ holds x.1 move

/-- However the controller is called, whatever the hub refuses and in whatever order replies come:
if a statement is answered with rows only while no result is shown, and the close that `execute`
submits is accepted, then a session that lasts and has answered everything has no result open but
the one that the controller remembers. -/
theorem no_result_is_leaked
    (run : ReflTransGen (Recorded env (Orderly env)) (.start (.new maxRows maxFetchesInFlight fetchRows autoFetch),[]) (s,opened))
    (lasts : s.hub.ended = false) (idle : s.hub.pending = []) : ∀ r ∈ opened, r = s.resultId := by
  have tidy : Tidy opened s := by
    refine ReflTransGen.head_induction_on (motive := fun x _ => Tidy x.2 x.1 → Tidy opened s) run id ?_
      ⟨by simp [System.start,SessionController.new],Nat.one_pos,by simp⟩
    rintro x y ⟨move,step,after,orderly⟩ _ ih tidy
    exact ih (after ▸ tidy.does orderly step.does)
  intro r member
  obtain ⟨_,same | ⟨p,waits,_⟩⟩ := tidy.closed lasts r member
  · exact same
  · simp [idle] at waits

end

def patient : System := .start (.new 2 one one false)
def asking : System := Call.execute.perform willing ((Call.openSession.perform willing patient).answered (.opened 1 none 0))

def bothOpen : System :=
  (System.answered (.executed 2 none (some 1) none) (Call.execute.perform willing asking)).answered (.executed 3 none (some 2) none)

def replacing : System := Call.execute.perform willing (asking.answered (.executed 2 none (some 1) none))
def replaced : System := (replacing.answered (.resultClosed 3 none)).answered (.executed 4 none (some 2) none)

section
variable {holds : System → Move → Prop} {s : System} {opened : List Nat}

theorem called_recorded (call : Call) (fine : holds s (.call call)) :
    Recorded willing holds (s,opened) (call.perform willing s,opened) :=
  ⟨.call call,.call call,rfl,fine⟩

theorem answered_recorded (queue : s.hub.pending = oldest :: rest) (alive : s.hub.ended = false)
    (answers : Answers s.hub.nextResultId oldest event) (fine : holds s (.event event)) :
    Recorded willing holds (s,opened) (s.answered event,s.openAfter opened (.event event)) :=
  ⟨_,answered_step queue alive answers,rfl,fine⟩

theorem asking_run (fine : ∀ s move, s.resultId = 0 → holds s move) :
    ReflTransGen (Recorded willing holds) (patient,[]) (asking,[]) :=
  ((ReflTransGen.single (called_recorded .openSession (fine _ _ rfl))).tail
    (answered_recorded rfl rfl (.opened 1 none 0) (fine _ _ rfl))).tail (called_recorded .execute (fine _ _ rfl))

end

theorem Orderly.empty (env : Env) (s : System) (move : Move) (empty : s.resultId = 0) : Orderly env s move := by
  unfold Orderly
  split <;> simp [empty]

/-- The second statement closes the first one's result, which is then forgotten. -/
theorem one_result_is_remembered : replacing.closing 1 ∧ replaced.hub.pending = [] ∧ replaced.resultId = 2 ∧
    ∀ r ∈ [2], r = replaced.resultId := by
  have shown := (asking_run (Orderly.empty willing)).tail (answered_recorded rfl rfl (.result 2 none) rfl)
  have closing := shown.tail (called_recorded .execute fun _ => ⟨rfl,rfl⟩)
  have closed := closing.tail (answered_recorded rfl rfl (.resultClosed 3 none) trivial)
  exact ⟨⟨⟨3,.resultClosed,1⟩,by decide,rfl,rfl⟩,rfl,rfl,
    no_result_is_leaked (closed.tail (answered_recorded rfl rfl (.result 4 none) rfl)) rfl rfl⟩

theorem overlapping_statements_leak :
    ReflTransGen (Recorded willing fun _ _ => True) (patient,[]) (bothOpen,[1,2]) ∧ bothOpen.hub.ended = false ∧
      bothOpen.hub.pending = [] ∧ bothOpen.outstanding = [] ∧ bothOpen.resultId = 2 := by
  refine ⟨?_,rfl,rfl,rfl,rfl⟩
  exact (((asking_run fun _ _ _ => trivial).tail (called_recorded .execute trivial)).tail
    (answered_recorded rfl rfl (.result 2 none) trivial)).tail (answered_recorded rfl rfl (.result 3 none) trivial)

end Reldex.Ui
