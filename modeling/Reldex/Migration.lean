import Reldex.SharedStore
import Reldex.WorkspaceStore

/-! The file format of the workspace store: how a file is recognised, and the forward-only
migration that any number of connections may run on it at the same time. -/
namespace Reldex.Workspace
open List Nat Option

/-- The header fields of an SQLite file and what it stores. -/
structure StoreFile (σ : Type) where
  applicationId : Int
  userVersion : Int
  schema : σ
  deriving DecidableEq

def applicationId : Int := 0x524C4458
def schemaVersion : Nat := 4

/-- One forward step: the version it produces and what produces it. -/
structure Migration (σ ε : Type) where
  version : Nat
  apply : σ → Except (StoreError ε) σ

inductive Header where
  | empty
  | reldex (version : Nat)
  deriving DecidableEq, Repr

def Header.ofRow (identity version objects : Int) : Except (StoreError ε) Header :=
  if identity = applicationId then
    -- `u32::try_from` of the stored version.
    if version < 0 ∨ version ≥ 2 ^ 32 then .error .notAReldexStore
    else if version.toNat > schemaVersion then .error (.newerSchema version.toNat schemaVersion)
    else if version.toNat = 0 ∧ objects > 0 then .error .incompleteHeader
    else .ok (.reldex version.toNat)
  else if identity = 0 ∧ version = 0 ∧ objects = 0 then .ok .empty
  else .error .notAReldexStore

def Header.version : Header → Nat
  | .empty => 0
  | .reldex version => version

structure Migrated where
  fromVersion : Nat
  toVersion : Nat
  deriving DecidableEq, Repr

section
open Transaction
variable {σ ε : Type} (objects : σ → Nat)

def StoreFile.header (file : StoreFile σ) : Except (StoreError ε) Header :=
  Header.ofRow file.applicationId file.userVersion (objects file.schema)

/-- One statement, so one snapshot. -/
def inspect : Transaction (StoreFile σ) (StoreError ε) Header :=
  statement fun file => (file.header objects).map fun header => (header,file)

def Migration.run (step : Migration σ ε) : Transaction (StoreFile σ) (StoreError ε) Unit :=
  statement fun file => (step.apply file.schema).map fun schema => ((),{ file with schema := schema })

def applySteps : List (Migration σ ε) → Transaction (StoreFile σ) (StoreError ε) Unit
  | [] => pure ()
  | step :: rest => do
    step.run
    applySteps rest

def writeHeader (target : Nat) : Transaction (StoreFile σ) (StoreError ε) Unit := do
  execute fun file => { file with applicationId := applicationId }
  execute fun file => { file with userVersion := target }

/-- The body of the write transaction, which reads the header again. -/
def upgrade (steps : List (Migration σ ε)) (target : Nat) : Transaction (StoreFile σ) (StoreError ε) Migrated := do
  let header ← inspect objects
  if header.version > target then
    throw (.newerSchema header.version target)
  else
    applySteps (steps.filter fun step => step.version > header.version ∧ step.version ≤ target)
    if header.version < target then writeHeader target else pure ()
    return ⟨header.version,target⟩

def migrateWith (steps : List (Migration σ ε)) (target : Nat) (me : Nat) (outages : Outages (StoreError ε)) :
    Prog (SharedStore (StoreFile σ)) (Except (StoreError ε) Migrated) := do
  let found ← Prog.gets fun s => (inspect objects (s.committed,[outages.first])).map (·.1)
  match found with
  | .error failure => return .error failure
  | .ok header =>
    if header = .reldex target then
      return .ok ⟨target,target⟩
    else SharedStore.immediate me (upgrade objects steps target) outages

end

section
open Transaction
variable {σ ε : Type} {objects : σ → Nat}

def applied (steps : List (Migration σ ε)) (schema : σ) : Except (StoreError ε) σ :=
  steps.foldlM (fun schema step => step.apply schema) schema

variable (steps : List (Migration σ ε))

theorem applied_cons (step : Migration σ ε) (schema : σ) :
    applied (step :: steps) schema = step.apply schema >>= applied steps := rfl

theorem Migration.run_spec (step : Migration σ ε) (file : StoreFile σ) :
    Triple (· = file) step.run
      (fun _ next => ∃ schema, step.apply file.schema = .ok schema ∧ next = { file with schema := schema })
      fun reported => step.apply file.schema = .error reported := by
  refine .mapped ?_ ?_
  · rintro s schema rfl changed
    exact ⟨schema,changed,rfl⟩
  · rintro s reported rfl failed
    exact failed

theorem applySteps_spec (file : StoreFile σ) :
    Triple (· = file) (applySteps steps)
      (fun _ next => ∃ schema, applied steps file.schema = .ok schema ∧ next = { file with schema := schema })
      fun reported => applied steps file.schema = .error reported := by
  induction steps generalizing file with
  | nil => exact .pure fun s same => ⟨file.schema,rfl,same⟩
  | cons step rest ih =>
    refine .bind ((step.run_spec file).weaken (fun _ => id) (fun _ _ => id) fun _ failed => ?_) fun _ =>
      .chosen fun schema => .given fun changed => ?_
    · rw [applied_cons,failed]
      rfl
    · rw [applied_cons,changed]
      exact ih { file with schema := schema }

theorem pending_eq (first version target : Nat)
    (contiguous : steps.map (·.version) = range' (first + 1) steps.length) :
    steps.filter (fun step => step.version > version ∧ step.version ≤ target) =
      (steps.drop (version - first)).take (target - max version first) := by
  induction steps generalizing first with
  | nil => simp
  | cons step rest ih =>
    simp only [map_cons,length_cons,range'_succ,cons.injEq] at contiguous
    obtain ⟨own,others⟩ := contiguous
    rw [filter_cons,ih (first + 1) others,own]
    rcases lt_or_ge first version with early | late
    · -- This step was applied before.
      have skip : version - first = (version - (first + 1)) + 1 := by omega
      have same : max version (first + 1) = max version first := by omega
      rw [if_neg (by simp; omega),skip,drop_succ_cons,same]
    · have none_dropped : version - first = 0 ∧ version - (first + 1) = 0 := by omega
      rw [none_dropped.1,none_dropped.2,drop_zero,drop_zero,max_eq_right late,
        max_eq_right (le_succ_of_le late)]
      rcases lt_or_ge first target with pending | done
      · have next : target - first = (target - (first + 1)) + 1 := by omega
        rw [if_pos (by simp; omega),next,take_succ_cons]
      · have nothing : target - first = 0 ∧ target - (first + 1) = 0 := by omega
        rw [if_neg (by simp; omega),nothing.1,nothing.2,take_zero,take_zero]

end

section
open Transaction
variable {σ ε : Type} {objects : σ → Nat}

/-- Why a connection that brings files to `target` refuses this one. -/
def refusal (objects : σ → Nat) (target : Nat) (file : StoreFile σ) : Option (StoreError ε) :=
  match file.header objects with
  | .error failure => some failure
  | .ok header => if header.version > target then some (.newerSchema header.version target) else none

variable (objects) in
/-- The header and the schema changed together: every step above the version of `start` was
applied once, in order. -/
def Upgraded (steps : List (Migration σ ε)) (target : Nat) (start file : StoreFile σ) : Prop :=
  ∃ header schema, start.header objects = Except.ok (ε := StoreError ε) header ∧ header.version ≤ target ∧
    applied ((steps.drop header.version).take (target - header.version)) start.schema = .ok schema ∧
    file = ⟨applicationId,target,schema⟩

variable (objects) in
/-- A connection reports this of the file itself: it refuses it, or a step fails on it. -/
def Breaks (steps : List (Migration σ ε)) (target : Nat) (file : StoreFile σ) (reported : StoreError ε) : Prop :=
  refusal objects target file = some reported ∨
    ∃ header, file.header objects = Except.ok (ε := StoreError ε) header ∧ header.version ≤ target ∧
      applied ((steps.drop header.version).take (target - header.version)) file.schema = .error reported

theorem header_reldex {file : StoreFile σ}
    (found : file.header objects = Except.ok (ε := StoreError ε) (.reldex version)) :
    file.applicationId = applicationId ∧ file.userVersion = version := by
  unfold StoreFile.header Header.ofRow at found
  split_ifs at found with own <;> cases found
  exact ⟨own,by omega⟩

theorem header_at_target (positive : 1 ≤ target) (known : target ≤ schemaVersion) (schema : σ) :
    (⟨applicationId,target,schema⟩ : StoreFile σ).header objects = Except.ok (ε := StoreError ε) (.reldex target) := by
  have small : target ≤ 4 := known
  have low : ¬((target : Int) < 0 ∨ (target : Int) ≥ 2 ^ 32) := by omega
  have set : ¬(target = 0 ∧ (objects schema : Int) > 0) := by omega
  unfold StoreFile.header Header.ofRow
  rw [if_pos rfl,if_neg low,Int.toNat_natCast,if_neg (not_lt.mpr known),if_neg set]

variable {steps : List (Migration σ ε)} {target : Nat}

theorem upgraded_self {file : StoreFile σ} (found : file.header objects = Except.ok (ε := StoreError ε) (.reldex target)) :
    Upgraded objects steps target file file := by
  obtain ⟨identity,version⟩ := header_reldex found
  refine ⟨_,file.schema,found,le_refl _,?_,?_⟩
  · simp [Header.version,applied]
    rfl
  · cases file
    simp_all

theorem Upgraded.again {next : StoreFile σ} (positive : 1 ≤ target) (known : target ≤ schemaVersion)
    (upgraded : Upgraded objects steps target start file) (later : Upgraded objects steps target file next) :
    next = file := by
  obtain ⟨_,schema,_,_,_,rfl⟩ := upgraded
  obtain ⟨header,last,found,_,went,rfl⟩ := later
  rw [header_at_target positive known] at found
  cases found
  simp only [Header.version,Nat.sub_self,take_zero] at went
  cases went
  rfl

theorem inspect_spec (target : Nat) (file : StoreFile σ) :
    Triple (· = file) (inspect objects)
      (fun header next => file.header objects = Except.ok (ε := StoreError ε) header ∧ next = file)
      fun reported : StoreError ε => refusal objects target file = some reported := by
  refine .mapped ?_ ?_
  · rintro s header rfl found
    exact ⟨found,rfl⟩
  · rintro s reported rfl failed
    simp only [refusal,failed]

theorem writeHeader_spec (file : StoreFile σ) (cause : StoreError ε → Prop) :
    Triple (· = file) (writeHeader target) (fun _ next => next = ⟨applicationId,target,file.schema⟩) cause := by
  refine .bind (m := fun _ next => next = { file with applicationId := applicationId }) (.execute ?_)
    fun _ => .execute ?_
  · rintro s rfl
    rfl
  · rintro s rfl
    rfl

theorem upgrade_spec (positive : 1 ≤ target)
    (contiguous : steps.map (·.version) = range' 1 steps.length) (file : StoreFile σ) :
    Triple (· = file) (upgrade objects steps target)
      (fun migrated next => migrated.toVersion = target ∧ Upgraded objects steps target file next)
      (Breaks objects steps target file) := by
  refine .bind ((inspect_spec target file).weaken (fun _ => id) (fun _ _ => id) fun _ => .inl) fun header => .given fun found => ?_
  split
  next newer => exact .throw (.inl (by simp only [refusal,found,if_pos newer]))
  next old =>
    have pending := pending_eq steps 0 header.version target contiguous
    rw [Nat.sub_zero,Nat.max_eq_left (Nat.zero_le _)] at pending
    refine .bind ((applySteps_spec _ file).weaken (fun _ => id) (fun _ _ => id) fun _ failed => ?_) fun _ =>
      .chosen fun schema => .given fun went => ?_
    · exact .inr ⟨header,found,not_lt.mp old,pending ▸ failed⟩
    rw [pending] at went
    split
    next below =>
      refine (writeHeader_spec _ _).bind fun _ => .pure ?_
      rintro next rfl
      exact ⟨rfl,header,schema,found,le_of_lt below,went,rfl⟩
    next reached =>
      -- Nothing is pending: the header is that of a store at the target version.
      have same_version : header.version = target := by omega
      have at_target : header = .reldex target := by
        cases header with
        | empty =>
          simp only [Header.version] at same_version
          omega
        | reldex version => exact congrArg Header.reldex same_version
      subst at_target
      simp only [Header.version,Nat.sub_self,take_zero] at went
      cases went
      refine .pure ?_
      rintro next rfl
      exact ⟨rfl,upgraded_self found⟩

theorem Breaks.refused {refused : StoreError ε} (breaks : Breaks objects steps target file reported)
    (refuses : refusal objects target file = some refused) : reported = refused := by
  rcases breaks with same | ⟨header,found,low,_⟩
  · exact some.inj (same.symm.trans refuses)
  · simp only [refusal,found] at refuses
    split_ifs at refuses
    omega

theorem Upgraded.unbroken (positive : 1 ≤ target) (known : target ≤ schemaVersion)
    (upgraded : Upgraded objects steps target start file) : ¬Breaks objects steps target file reported := by
  obtain ⟨_,schema,_,_,_,rfl⟩ := upgraded
  have current : (⟨applicationId,target,schema⟩ : StoreFile σ).header objects = Except.ok (ε := StoreError ε) (.reldex target) :=
    header_at_target positive known schema
  rintro (refused | ⟨header,found,_,failed⟩)
  · simp [refusal,current,Header.version] at refused
  · rw [current] at found
    cases found
    simp only [Header.version,Nat.sub_self,take_zero] at failed
    cases failed

end

section
variable {σ ε : Type} {objects : σ → Nat} {steps : List (Migration σ ε)} {target : Nat} {start : StoreFile σ}

variable (objects steps target start) in
def Intact (file : StoreFile σ) : Prop := file = start ∨ Upgraded objects steps target start file

variable (objects steps target start) in
def Known (outages : Outages (StoreError ε)) : Except (StoreError ε) Migrated → StoreFile σ → Prop
  | .ok migrated,file => migrated.toVersion = target ∧ Upgraded objects steps target start file
  | .error reported,_ => outages.Reports reported ∨ Breaks objects steps target start reported

theorem Upgraded.not_refused {refused : StoreError ε}
    (upgraded : Upgraded objects steps target start file) (refuses : refusal objects target start = some refused) :
    False := by
  obtain ⟨header,_,found,low,_⟩ := upgraded
  simp only [refusal,found] at refuses
  split_ifs at refuses
  omega

theorem Intact.refused {refused : StoreError ε} (intact : Intact objects steps target start file)
    (refuses : refusal objects target start = some refused) : file = start :=
  intact.resolve_right fun upgraded => upgraded.not_refused refuses

section
variable (positive : 1 ≤ target) (known : target ≤ schemaVersion)
include positive known

theorem Intact.commits {next : StoreFile σ}
    (committed : Upgraded objects steps target file next) (intact : Intact objects steps target start file) :
    Upgraded objects steps target start next := by
  rcases intact with rfl | upgraded
  · exact committed
  · rw [upgraded.again positive known committed]
    exact upgraded

theorem Intact.breaks (intact : Intact objects steps target start file) (breaks : Breaks objects steps target file reported) :
    Breaks objects steps target start reported := by
  rcases intact with rfl | upgraded
  · exact breaks
  · exact absurd breaks (upgraded.unbroken positive known)

theorem Known.kept {next : StoreFile σ} (result : Except (StoreError ε) Migrated)
    (committed : Upgraded objects steps target file next) (knows : Known objects steps target start outages result file) :
    Known objects steps target start outages result next := by
  cases result with
  | error reported => exact knows
  | ok migrated => exact ⟨knows.1,Intact.commits positive known committed (.inr knows.2)⟩

end

variable (objects steps target start) in
def Found (outages : Outages (StoreError ε)) : Except (StoreError ε) Header → StoreFile σ → Prop
  | .error reported,file => Known objects steps target start outages (.error reported) file
  | .ok header,file => Intact objects steps target start file ∧
    (header = .reldex target → Upgraded objects steps target start file)

theorem found_first (positive : 1 ≤ target) (known : target ≤ schemaVersion) (outages : Outages (StoreError ε))
    {file : StoreFile σ} (intact : Intact objects steps target start file) :
    Found objects steps target start outages ((inspect objects (file,[outages.first])).map (·.1)) file := by
  cases ended : inspect objects (file,[outages.first]) with
  | error reported =>
    rcases (inspect_spec target file).fails _ _ _ rfl ended with engine | own
    · exact .inl (.inl (mem_singleton.mp engine).symm)
    · exact .inr (intact.breaks positive known (.inl own))
  | ok result =>
    obtain ⟨header,after,left⟩ := result
    obtain ⟨⟨found,_⟩,_⟩ := (inspect_spec target file).ends _ _ _ _ _ rfl ended
    refine ⟨intact,fun current => ?_⟩
    change header = _ at current
    rcases intact with rfl | upgraded
    · exact upgraded_self (current ▸ found)
    · exact upgraded

section
variable (positive : 1 ≤ target) (known : target ≤ schemaVersion)
include positive known

theorem Found.kept {next : StoreFile σ} (found : Except (StoreError ε) Header)
    (committed : Upgraded objects steps target file next) (knows : Found objects steps target start outages found file) :
    Found objects steps target start outages found next := by
  cases found with
  | error reported => exact knows
  | ok header =>
    have upgraded := knows.1.commits positive known committed
    exact ⟨.inr upgraded,fun _ => upgraded⟩

variable (contiguous : steps.map (·.version) = range' 1 steps.length) (name : Nat)
include contiguous name

variable (outages : Outages (StoreError ε))

/-- The header is read again under the lock, so what the first read found decides nothing. -/
theorem transaction_spec : Prog.Spec (SharedStore.Moves (Upgraded objects steps target)) name (fun _ => True)
      (fun s => Intact objects steps target start s.committed)
      (SharedStore.immediate name (upgrade objects steps target) outages)
      fun result s => Known objects steps target start outages result s.committed := by
  refine SharedStore.immediate_spec (fun _ _ committed before => .inr (before.commits positive known committed))
    (fun result _ _ committed before => before.kept positive known result committed) ?_ ?_ ?_ fun _ _ => trivial
  · intro reported view reports intact
    exact .inl reports
  · intro reported view intact failed
    rcases (upgrade_spec positive contiguous view).fails _ _ _ rfl failed with engine | breaks
    · exact .inl (.inr (.inr (.inl engine)))
    · exact .inr (intact.breaks positive known breaks)
  · intro migrated view next rest intact ended
    obtain ⟨⟨reached,committed⟩,_⟩ := (upgrade_spec positive contiguous view).ends _ _ _ _ _ rfl ended
    exact ⟨committed,reached,intact.commits positive known committed⟩

theorem migrateWith_spec : Prog.Spec (SharedStore.Moves (Upgraded objects steps target)) name (fun _ => True)
      (fun s => Intact objects steps target start s.committed) (migrateWith objects steps target name outages)
      fun result s => Known objects steps target start outages result s.committed := by
  have reads : Prog.Spec (SharedStore.Moves (Upgraded objects steps target)) name (fun _ => True)
      (fun s => Intact objects steps target start s.committed)
      (Prog.gets fun s => (inspect objects (s.committed,[outages.first])).map (·.1))
      fun found s => Found objects steps target start outages found s.committed :=
    SharedStore.read_spec (fun _ _ committed before => .inr (before.commits positive known committed))
      (fun found _ _ committed before => before.kept positive known found committed) fun _ before =>
        found_first positive known outages before
  refine reads.bind fun found => ?_
  have stable : Prog.Stable (SharedStore.Moves (Upgraded objects steps target)) name fun s =>
      Found objects steps target start outages found s.committed :=
    SharedStore.stable_committed fun _ _ committed before => before.kept positive known found committed
  cases found with
  | error reported => exact .pure stable fun _ knows => knows
  | ok header =>
    dsimp only
    split
    next current => exact .pure stable fun _ knows => ⟨rfl,knows.2 current⟩
    next old => exact (transaction_spec positive known contiguous name outages).from fun _ knows => knows.1

end

variable (objects steps target) in
def Connecting (outages : Nat → Outages (StoreError ε)) (name : Nat)
    (p : Prog (SharedStore (StoreFile σ)) (Except (StoreError ε) Migrated)) : Prop :=
  p = migrateWith objects steps target name (outages name)

variable (objects steps target start) in
/-- What any number of connections lead to, from a file that nobody has open. -/
def Migrating (outages : Nat → Outages (StoreError ε))
    (pool : Pool (SharedStore (StoreFile σ)) (Except (StoreError ε) Migrated)) : Prop :=
  Relation.ReflTransGen (Pool.Step (fun _ => none) (Connecting objects steps target outages))
    ⟨⟨start,none⟩,fun _ => none⟩ pool

variable (objects) in
def migrationProtocol (positive : 1 ≤ target) (known : target ≤ schemaVersion)
    (contiguous : steps.map (·.version) = range' 1 steps.length) (start : StoreFile σ)
    (outages : Nat → Outages (StoreError ε)) :
    Pool.Protocol (fun _ => none) (Connecting objects steps target outages) :=
  .ofGuarantees (SharedStore.Moves (Upgraded objects steps target)) (fun _ _ => True)
    (fun name result s => Known objects steps target start (outages name) result s.committed) (fun _ _ => True)
    (fun s => Intact objects steps target start s.committed)
    (fun _ _ _ intact moved => moved.keeps (fun _ _ committed before => .inr (before.commits positive known committed)) intact)
    (fun _ _ _ _ _ _ _ => trivial) (fun _ _ _ again => absurd again.symm (some_ne_none _))
    fun name _ starting => starting ▸
      (migrateWith_spec positive known contiguous name (outages name)).from fun _ holds => holds.1

theorem Migrating.follows {pool} (positive : 1 ≤ target)
    (known : target ≤ schemaVersion) (contiguous : steps.map (·.version) = range' 1 steps.length)
    (reached : Migrating objects steps target start outages pool) :
    Pool.Follows (migrationProtocol objects positive known contiguous start outages) pool := by
  have first : Pool.Follows (migrationProtocol objects positive known contiguous start outages)
      ⟨⟨start,none⟩,fun _ => none⟩ :=
    ⟨.inl rfl,fun _ _ absent => absurd absent.symm (some_ne_none _),fun _ _ => trivial⟩
  exact first.reachable reached

/-- Whatever the interleaving and whatever fails, the file is as it was or as one migration leaves
it. A connection that succeeded finds it at the target version, and a file that is foreign, newer or
incomplete is refused by every connection and never written. A connection fails only for one of the
engine's failures, for such a file or for a step that fails on it. -/
theorem concurrent_migration_applies_steps_once (objects : σ → Nat) (steps : List (Migration σ ε)) (target : Nat)
    (contiguous : steps.map (·.version) = range' 1 steps.length) (positive : 1 ≤ target)
    (known : target ≤ schemaVersion) (start : StoreFile σ) (outages : Nat → Outages (StoreError ε))
    (pool : Pool (SharedStore (StoreFile σ)) (Except (StoreError ε) Migrated))
    (reached : Migrating objects steps target start outages pool) :
    (pool.state.committed = start ∨ Upgraded objects steps target start pool.state.committed) ∧
    (∀ name migrated, pool.threads name = some (.ret (.ok migrated)) →
      migrated.toVersion = target ∧ Upgraded objects steps target start pool.state.committed ∧
      pool.state.committed.header objects = Except.ok (ε := StoreError ε) (.reldex target)) ∧
    (∀ refused, refusal objects target start = some refused → pool.state.committed = start ∧
      ∀ name result, pool.threads name = some (.ret result) →
        ∃ reported, result = .error reported ∧ (reported = refused ∨ (outages name).Reports reported)) ∧
    ∀ name reported, pool.threads name = some (.ret (.error reported)) →
      (outages name).Reports reported ∨ Breaks objects steps target start reported := by
  obtain ⟨intact,meets,_⟩ := reached.follows positive known contiguous
  refine ⟨intact,?_,?_,fun name reported thread => meets name _ thread pool.state .refl⟩
  · intro name migrated thread
    obtain ⟨version,upgraded⟩ := meets name _ thread pool.state .refl
    refine ⟨version,upgraded,?_⟩
    obtain ⟨_,schema,_,_,_,same⟩ := upgraded
    rw [same]
    exact header_at_target positive known schema
  · intro refused refuses
    refine ⟨Intact.refused intact refuses,?_⟩
    intro name result thread
    have knows := meets name _ thread pool.state .refl
    cases result with
    | ok migrated => exact (Upgraded.not_refused knows.2 refuses).elim
    | error reported => exact ⟨reported,rfl,knows.symm.imp_left fun breaks => breaks.refused refuses⟩

end

def recording (version : Nat) : Migration (List Nat) Unit := ⟨version,fun log => .ok (log ++ [version])⟩

def unfailing : Outages (StoreError Unit) := ⟨none,none,[],none⟩

/-- Two connections read the header of a new file before either migrates it. -/
theorem racing_connections_migrate_once :
    ∃ pool, Migrating length [recording 1,recording 2] 2 ⟨0,0,[]⟩ (fun _ => unfailing) pool ∧
      pool.threads 0 = some (.ret (.ok ⟨0,2⟩)) ∧ pool.threads 1 = some (.ret (.ok ⟨2,2⟩)) ∧
      pool.state.committed = ⟨applicationId,2,[1,2]⟩ ∧
      pool.state.committed.header length = Except.ok (ε := StoreError Unit) (.reldex 2) := by
  let steps := [recording 1,recording 2]
  let begun : Nat → Option (Prog (SharedStore (StoreFile (List Nat))) (Except (StoreError Unit) Migrated)) :=
    Function.update (Function.update (fun _ => none) 0 (some (migrateWith length steps 2 0 unfailing))) 1
      (some (migrateWith length steps 2 1 unfailing))
  have both : Migrating length steps 2 ⟨0,0,[]⟩ (fun _ => unfailing) ⟨⟨⟨0,0,[]⟩,none⟩,begun⟩ :=
    (Relation.ReflTransGen.single (.begins _ 0 rfl rfl)).tail (.begins _ 1 rfl rfl)
  have read := (both.tail (.acts _ 0 rfl rfl)).tail (.acts _ 1 rfl rfl)
  have first := read.trans (Pool.alone 0 rfl rfl)
  have second := first.trans (Pool.alone 1 rfl rfl)
  have settled := concurrent_migration_applies_steps_once length steps 2 rfl (by decide) (by decide) _ _ _ second
  refine ⟨_,second,rfl,rfl,rfl,?_⟩
  exact (settled.2.1 0 ⟨0,2⟩ rfl).2.2

end Reldex.Workspace
