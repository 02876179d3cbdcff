import Reldex.DriverContract

/-! The log of server output that the completion path keeps between two takes. It is a prefix of
what was read, as long as its two bounds allow, and counts the rest. -/
namespace Reldex
open Nat

structure ServerOutputLog where
  lines : List Text
  dropped : Nat
  failure : Option DbError
  failures : Nat
  invalidUtf8Lines : Nat

namespace ServerOutputLog

def maxRetainedLines : Nat := 10000
def maxRetainedBytes : Nat := 1024 * 1024

end ServerOutputLog

open ServerOutputLog (maxRetainedLines maxRetainedBytes)

structure CollectedOutput where
  log : ServerOutputLog
  bytes : Nat
  refusing : Bool

namespace CollectedOutput

def default : CollectedOutput := ⟨⟨[],0,none,0,0⟩,0,false⟩

/-- The sum of the bytes saturates at the largest `usize`. -/
def fits (c : CollectedOutput) (line : Text) : Bool :=
  decide (c.log.lines.length < maxRetainedLines) && decide (min (c.bytes + len line) (2^64 - 1) ≤ maxRetainedBytes)

def push (c : CollectedOutput) (line : Text) : CollectedOutput :=
  if !c.refusing && c.fits line then
    { c with bytes := c.bytes + len line, log := { c.log with lines := c.log.lines ++ [line] } }
  else { c with refusing := true, log := { c.log with dropped := saturatingAdd32 c.log.dropped 1 } }

/-- `collect_server_output`. Only the first failure is kept. -/
def collect (c : CollectedOutput) (lines : List Text) (invalidUtf8Lines : Nat) (failure : Option DbError) : CollectedOutput :=
  let c := lines.foldl push c
  let log := { c.log with invalidUtf8Lines := saturatingAdd32 c.log.invalidUtf8Lines invalidUtf8Lines }
  match failure with
  | none => { c with log }
  | some error => { c with log := { log with
      failures := saturatingAdd32 log.failures 1
      failure := log.failure.or (some error) } }

def take (c : CollectedOutput) : ServerOutputLog × CollectedOutput := (c.log,default)

inductive Call where
  | collect (lines : List Text) (invalidUtf8Lines : Nat) (failure : Option DbError)
  | take

def call (c : CollectedOutput) : Call → CollectedOutput
  | .collect lines invalidUtf8Lines failure => c.collect lines invalidUtf8Lines failure
  | .take => c.take.2

def linesSince (read : List Text) : Call → List Text
  | .collect lines _ _ => read ++ lines
  | .take => []

/-- A longest prefix of what was read within the bounds, and the number of the other lines. -/
structure CountedPrefix (read : List Text) (log : ServerOutputLog) : Prop where
  rest : ∃ refused, read = log.lines ++ refused ∧ log.dropped = min refused.length (2^32 - 1) ∧
    ∀ first ∈ refused.head?, log.lines.length = maxRetainedLines ∨
      maxRetainedBytes < (log.lines.map len).sum + len first
  lines : log.lines.length ≤ maxRetainedLines
  bytes : (log.lines.map len).sum ≤ maxRetainedBytes

structure Collected (read : List Text) (c : CollectedOutput) : Prop extends CountedPrefix read c.log where
  total : c.bytes = (c.log.lines.map len).sum
  refusing : c.refusing = true ↔ c.log.lines ≠ read

variable {read : List Text} {c : CollectedOutput}

theorem default_collected : Collected [] default where
  rest := ⟨[],rfl,rfl,by simp⟩
  lines := zero_le _
  bytes := zero_le _
  total := rfl
  refusing := by simp [default]

theorem fits_iff (total : c.bytes = (c.log.lines.map len).sum) (line : Text) : c.fits line = true ↔
    c.log.lines.length < maxRetainedLines ∧ (c.log.lines.map len).sum + len line ≤ maxRetainedBytes := by
  simp only [fits,total,maxRetainedBytes,Bool.and_eq_true,decide_eq_true_eq]
  omega

theorem Collected.push (collected : Collected read c) (line : Text) : Collected (read ++ [line]) (c.push line) := by
  obtain ⟨refused,split,dropped,first⟩ := collected.rest
  have same : c.log.lines = read ↔ refused = [] := by
    rw [split]
    simp
  unfold CollectedOutput.push
  split_ifs with kept
  · obtain ⟨open_,fit⟩ := Bool.and_eq_true_iff.mp kept
    obtain ⟨short,small⟩ := (fits_iff collected.total line).mp fit
    have all : c.log.lines = read := by
      by_contra other
      simp [collected.refusing.mpr other] at open_
    obtain rfl := same.mp all
    rw [List.append_nil] at split
    exact {
      rest := ⟨[],by simp [all],by simpa using dropped,by simp⟩
      lines := by simpa using short
      bytes := by simpa using small
      total := by simp [collected.total]
      refusing := by simp [all,collected.refusing] }
  · refine { rest := ⟨refused ++ [line],by simp [split],?_,?_⟩, lines := collected.lines, bytes := collected.bytes,
             total := collected.total, refusing := ?_ }
    · simp only [dropped,saturatingAdd32,u32Max,List.length_append,List.length_singleton]
      omega
    · cases refused with
      | cons head tail => exact first
      | nil =>
        have fresh : c.refusing = false := by
          rw [← Bool.not_eq_true,collected.refusing,not_not]
          exact same.mpr rfl
        simp only [fresh,Bool.not_false,Bool.true_and,fits_iff collected.total,not_and_or,not_lt,not_le] at kept
        rintro _ ⟨⟩
        exact kept.imp_left (le_antisymm collected.lines)
    · have more : c.log.lines ≠ read ++ [line] := by
        rw [split]
        simp
      simpa using more

theorem Collected.collect (collected : Collected read c) (lines : List Text) (invalidUtf8Lines : Nat)
    (failure : Option DbError) : Collected (read ++ lines) (c.collect lines invalidUtf8Lines failure) := by
  have pushed : Collected (read ++ lines) (lines.foldl CollectedOutput.push c) := by
    induction lines generalizing read c with
    | nil => simpa using collected
    | cons line lines ih => simpa using ih (collected.push line)
  unfold CollectedOutput.collect
  cases failure with
  | none => exact { pushed with }
  | some error => exact { pushed with }

/-- At every moment the log is a counted prefix of the lines since the last take. -/
theorem log_is_counted_prefix (calls : List Call) :
    CountedPrefix (calls.foldl linesSince []) (calls.foldl call default).log ∧
      (calls.foldl call default).take.2 = default := by
  have run (read : List Text) (c : CollectedOutput) (collected : Collected read c) :
      Collected (calls.foldl linesSince read) (calls.foldl call c) := by
    induction calls generalizing read c with
    | nil => exact collected
    | cons next calls ih =>
      refine ih _ _ ?_
      cases next with
      | collect lines invalidUtf8Lines failure => exact collected.collect lines invalidUtf8Lines failure
      | take => exact default_collected
  exact ⟨(run [] default default_collected).toCountedPrefix,rfl⟩

end CollectedOutput
end Reldex
