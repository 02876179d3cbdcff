import Reldex.DriverContract
import Reldex.Utf8Chunks

/-! Reading a large object in chunks. The stream reads ahead into a staging buffer, asks for less
when the reader has cut a character, and hands out of the buffer what fits the caller's and ends
between two characters. -/
namespace Reldex.OracleThin
open List Nat

inductive LobKind where
  | binary | character | nationalCharacter
  deriving DecidableEq, Repr

def LobKind.isCharacter : LobKind → Bool
  | .binary => false
  | .character | .nationalCharacter => true

/-- Whether the text of an error of the reader says that a character was cut. -/
def isSplitCharacter (text : Text) : Bool :=
  decide ("invalid encoded string".toList <:+: text) || decide ("invalid utf-16".toList <:+: text)

/-- The reader of the Oracle crate, in whatever state and of whatever sizes its reads are: each takes
the next bytes, whole characters of a text, none only at the end, and takes nothing if it says that a
character was cut. -/
structure Lob (kind : LobKind) (σ : Type) where
  unread : σ → List UInt8
  read : σ → Nat → Except Text (List UInt8) × σ
  reads : (read s limit).1 = .ok bytes → unread s = bytes ++ unread (read s limit).2
  ends : (read s limit).1 = .ok [] → unread s = []
  whole : kind.isCharacter = true → (read s limit).1 = .ok bytes → Utf8.Whole bytes
  keeps : (read s limit).1 = .error text → isSplitCharacter text = true → unread (read s limit).2 = unread s

/-- The first `filled` bytes of the staging buffer are `staging`; the rest is never read. -/
structure OracleLobStream (σ : Type) where
  lob : σ
  staging : List UInt8 := []
  position : Nat := 0
  exhausted : Bool := false
  failed : Bool := false

def stagingBytes : Nat := 64 * 1024
def minStagingBytes : Nat := 64

inductive ReadFailure where
  | connectionClosed | afterFailure | bufferTooSmall
  | lobRead (text : Text)
  deriving DecidableEq, Repr

/-- The failure as the caller gets it; `mapLobRead` classifies the reader's errors. -/
def ReadFailure.dbError (mapLobRead : Text → DbError) : ReadFailure → DbError
  | .connectionClosed => ⟨.driverInternal,.lost,"LOB stream was used after its connection was closed"⟩
  | .afterFailure => .internal "LOB stream read after a failure; the only legal action was to drop it"
  | .bufferTooSmall => .new .dataConversion "chunk buffer is too small to hold one character"
  | .lobRead text => mapLobRead text

section
variable {kind : LobKind} {σ : Type} (lob : Lob kind σ)

/-- The loop of `refill`. -/
def readStaging (limit : Nat) (s : σ) : Except Text (List UInt8) × σ :=
  match lob.read s limit with
  | (.error text,next) =>
    if isSplitCharacter text = true ∧ minStagingBytes < limit then readStaging (limit - 3) next else (.error text,next)
  | (.ok bytes,next) => (.ok bytes,next)
termination_by limit
decreasing_by simp only [minStagingBytes] at *; omega

def refill (s : OracleLobStream σ) : Except ReadFailure Unit × OracleLobStream σ :=
  match readStaging lob stagingBytes s.lob with
  | (.ok bytes,next) =>
    (.ok (),{ s with lob := next, staging := bytes, position := 0, exhausted := s.exhausted || bytes.isEmpty })
  | (.error text,next) => (.error (.lobRead text),{ s with lob := next, staging := [], position := 0, failed := true })

def copyable (kind : LobKind) (available : List UInt8) (max : Nat) : Nat :=
  let take := min available.length max
  if kind.isCharacter = false ∨ take = available.length then take
  else Utf8.backOff (fun byte => byte &&& 0xC0 == 0x80) available take

/-- The end of `read_chunk`, with something in the buffer. -/
def copyOut (kind : LobKind) (max : Nat) (s : OracleLobStream σ) :
    Except ReadFailure (List UInt8) × OracleLobStream σ :=
  let available := s.staging.drop s.position
  let take := copyable kind available max
  if take = 0 then (.error .bufferTooSmall,s)
  else (.ok (available.take take),{ s with position := s.position + take })

/-- One call with a buffer of `max` bytes, while the connection is `closed` or not. -/
def readChunk (closed : Bool) (max : Nat) (s : OracleLobStream σ) :
    Except ReadFailure (List UInt8) × OracleLobStream σ :=
  if closed then (.error .connectionClosed,s)
  else if s.failed then (.error .afterFailure,s)
  else if max = 0 then (.ok [],s)
  else if s.position = s.staging.length then
    if s.exhausted then (.ok [],s)
    else
      match refill lob s with
      | (.error failure,t) => (.error failure,t)
      | (.ok (),t) => if t.staging = [] then (.ok [],t) else copyOut kind max t
  else copyOut kind max s

def OracleLobStream.remaining (s : OracleLobStream σ) : List UInt8 := s.staging.drop s.position ++ lob.unread s.lob

def returned : Except ReadFailure (List UInt8) → List UInt8
  | .ok chunk => chunk
  | .error _ => []

def afterCalls (start : σ) (calls : List (Bool × Nat)) :
    List (Except ReadFailure (List UInt8)) × OracleLobStream σ :=
  calls.foldl (fun run call =>
    let answer := readChunk lob call.1 call.2 run.2
    (run.1 ++ [answer.1],answer.2)) ([],{ lob := start })

def Refuses (text : Text) : Prop :=
  ∃ s limit, (lob.read s limit).1 = .error text ∧ (isSplitCharacter text = true → limit ≤ minStagingBytes)

structure Streaming (object received : List UInt8) (s : OracleLobStream σ) : Prop where
  started : received <+: object
  adds : ¬s.failed = true → received ++ s.remaining lob = object
  whole : kind.isCharacter = true → Utf8.Whole (s.staging.drop s.position)
  ended : s.exhausted = true → s.staging = [] ∧ lob.unread s.lob = []
  within : s.position ≤ s.staging.length

structure Answers (object received : List UInt8) (closed : Bool) (max : Nat) (s : OracleLobStream σ)
    (outcome : Except ReadFailure (List UInt8)) (next : OracleLobStream σ) : Prop where
  streaming : Streaming lob object (received ++ returned outcome) next
  fits : outcome = .ok chunk → chunk.length ≤ max ∧ (kind.isCharacter = true → Utf8.Whole chunk)
  ends : outcome = .ok [] → 0 < max → received = object
  small : outcome = .error .bufferTooSmall → kind.isCharacter = true ∧ max < 4 ∧ ¬next.failed = true ∧
    next.remaining lob = s.remaining lob
  fails : outcome = .error cause → closed = true ∨ s.failed = true ∨ cause = .bufferTooSmall ∨
    ∃ text, cause = .lobRead text ∧ Refuses lob text

end

variable {kind : LobKind} {σ : Type} {lob : Lob kind σ} {s : OracleLobStream σ} {object received : List UInt8}
  {closed : Bool} {max : Nat}

theorem readStaging_ok (limit : Nat) (start : σ) (bytes : List UInt8) (read : (readStaging lob limit start).1 = .ok bytes) :
    lob.unread start = bytes ++ lob.unread (readStaging lob limit start).2 ∧
      (bytes = [] → lob.unread start = []) ∧ (kind.isCharacter = true → Utf8.Whole bytes) := by
  fun_induction readStaging lob limit start with
  | case1 limit start text next answer again ih =>
    have kept : lob.unread (lob.read start limit).2 = lob.unread start := lob.keeps (by rw [answer]) again.1
    rw [answer] at kept
    exact kept ▸ ih read
  | case2 => cases read
  | case3 limit start taken next answer =>
    cases read
    have first : (lob.read start limit).1 = .ok bytes := by rw [answer]
    refine ⟨?_,fun none => lob.ends (none ▸ first),fun text => lob.whole text first⟩
    have := lob.reads first
    rwa [answer] at this

theorem masked_eq : (fun byte : UInt8 => byte &&& 0xC0 == 0x80) = Utf8.continues := by
  funext byte
  rw [← UInt8.ofNat_toNat (x := byte)]
  exact (show ∀ n < 256, (UInt8.ofNat n &&& 0xC0 == 0x80) = Utf8.continues (.ofNat n) by decide +kernel) _ byte.toNat_lt

theorem copyable_spec (available : List UInt8) (max : Nat) (whole : kind.isCharacter = true → Utf8.Whole available) :
    copyable kind available max ≤ min available.length max ∧
    (kind.isCharacter = true → Utf8.Whole (available.take (copyable kind available max)) ∧
      Utf8.Whole (available.drop (copyable kind available max))) ∧
    (available ≠ [] → 0 < max → copyable kind available max = 0 → kind.isCharacter = true ∧ max < 4) := by
  simp only [copyable]
  split
  · rename_i plain
    refine ⟨le_refl _,fun text => ?_,fun some room none => ?_⟩
    · rcases plain with binary | all
      · rw [text] at binary; cases binary
      · rw [all,take_length,drop_length]
        exact ⟨whole text,Utf8.whole_nil⟩
    · have := length_pos_iff.mpr some
      omega
  · rename_i cut
    rw [not_or,Bool.not_eq_false] at cut
    rw [masked_eq]
    obtain ⟨before,behind,near,below⟩ := (whole cut.1).backOff (min available.length max)
    exact ⟨below,fun _ => ⟨before,behind⟩,fun some room none => ⟨cut.1,by omega⟩⟩

theorem readStaging_error (limit : Nat) (start : σ) (text : Text) (read : (readStaging lob limit start).1 = .error text) :
    Refuses lob text := by
  fun_induction readStaging lob limit start with
  | case1 limit start _ next answer again ih => exact ih read
  | case2 limit start _ next answer given =>
    cases read
    exact ⟨start,limit,by rw [answer],fun split => not_lt.mp fun more => given ⟨split,more⟩⟩
  | case3 => cases read

section
variable (streaming : Streaming lob object received s)
include streaming

theorem Streaming.refill_ok (live : ¬s.failed = true)
    (empty : s.position = s.staging.length) (unended : ¬s.exhausted = true) (filled : refill lob s = (.ok (),t)) :
    Streaming lob object received t ∧ ¬t.failed = true ∧ t.position = 0 ∧ t.remaining lob = s.remaining lob ∧
      (t.staging = [] → received = object) := by
  unfold refill at filled
  split at filled
  · rename_i bytes next read
    cases filled
    obtain ⟨taken,none,whole⟩ := readStaging_ok stagingBytes s.lob bytes (by rw [read])
    rw [read] at taken
    have same : bytes ++ lob.unread next = s.remaining lob := by
      rw [OracleLobStream.remaining,empty,drop_length,nil_append,taken]
    have all := streaming.adds live
    refine ⟨⟨streaming.started,fun _ => ?_,whole,fun ended => ?_,zero_le _⟩,live,rfl,same,fun bare => ?_⟩
    · exact (congrArg (received ++ ·) same).trans all
    · rw [Bool.eq_false_iff.mpr unended,Bool.false_or,List.isEmpty_iff] at ended
      have nothing := none ended
      rw [taken,ended] at nothing
      exact ⟨ended,nothing⟩
    · have nothing := none bare
      rw [← all,← same,← taken,nothing,append_nil]
  · cases filled

theorem Streaming.copyOut (live : ¬s.failed = true)
    (present : s.staging.drop s.position ≠ []) (room : 0 < max) (same : s.remaining lob = before.remaining lob) :
    Answers lob object received closed max before (copyOut kind max s).1 (copyOut kind max s).2 := by
  obtain ⟨fits,cut,small⟩ := copyable_spec (s.staging.drop s.position) max streaming.whole
  unfold OracleThin.copyOut
  dsimp only
  split
  · rename_i none
    obtain ⟨text,few⟩ := small present room none
    refine ⟨?_,by simp,by simp,fun _ => ⟨text,few,live,same⟩,fun given => ?_⟩
    · rwa [returned,append_nil]
    · cases given
      exact .inr (.inr (.inl rfl))
  · rename_i some
    have split := take_append_drop (copyable kind (s.staging.drop s.position) max) (s.staging.drop s.position)
    have all := streaming.adds live
    rw [OracleLobStream.remaining,← split,append_assoc,← append_assoc] at all
    have rest := drop_drop (l := s.staging) (i := copyable kind (s.staging.drop s.position) max) (j := s.position)
    refine ⟨⟨⟨_,all⟩,fun _ => ?_,fun text => ?_,fun ended => ?_,?_⟩,?_,?_,by simp,by simp⟩
    · rwa [rest] at all
    · exact rest ▸ (cut text).2
    · exact streaming.ended ended
    · have inside := streaming.within
      rw [length_drop] at fits
      change s.position + _ ≤ s.staging.length
      omega
    · rintro _ ⟨⟩
      exact ⟨by rw [length_take]; omega,fun text => (cut text).1⟩
    · intro nothing
      rcases take_eq_nil_iff.mp (Except.ok.inj nothing) with none | none
      · exact absurd none some
      · exact absurd none present

theorem Streaming.refill_error (unended : ¬s.exhausted = true) (broken : refill lob s = (.error cause,t)) :
    Streaming lob object received t ∧ ∃ text, cause = .lobRead text ∧ Refuses lob text := by
  unfold refill at broken
  split at broken
  · cases broken
  · rename_i text next read
    cases broken
    refine ⟨⟨streaming.started,by simp,fun _ => Utf8.whole_nil,?_,le_refl _⟩,text,rfl,?_⟩
    · simp [unended]
    · exact readStaging_error stagingBytes s.lob text (by rw [read])

theorem Streaming.readChunk (closed : Bool) (max : Nat) :
    Answers lob object received closed max s (readChunk lob closed max s).1 (readChunk lob closed max s).2 := by
  have none {t : OracleLobStream σ} (streaming : Streaming lob object received t) (bare : 0 < max → received = object) :
      Answers lob object received closed max s (.ok []) t := by
    refine ⟨by rwa [returned,append_nil],?_,fun _ => bare,by simp,by simp⟩
    rintro _ ⟨⟩
    exact ⟨zero_le _,fun _ => Utf8.whole_nil⟩
  have same : Streaming lob object (received ++ []) s := by rwa [append_nil]
  fun_cases OracleThin.readChunk lob closed max s with
  | case1 shut => exact ⟨same,by simp,by simp,by simp,fun _ => .inl shut⟩
  | case2 _ broken => exact ⟨same,by simp,by simp,by simp,fun _ => .inr (.inl broken)⟩
  | case3 _ _ zero => exact none streaming (by omega)
  | case4 _ live _ empty ended =>
    refine none streaming fun _ => ?_
    have all := streaming.adds live
    rwa [OracleLobStream.remaining,empty,drop_length,(streaming.ended ended).2,append_nil,append_nil] at all
  | case5 _ _ _ _ unended cause t broken =>
    obtain ⟨streaming,refused⟩ := streaming.refill_error unended broken
    refine ⟨by rwa [returned,append_nil],by simp,by simp,?_,?_⟩
    · rintro ⟨⟩
      obtain ⟨_,same,_⟩ := refused
      cases same
    · rintro _ ⟨⟩
      exact .inr (.inr (.inr refused))
  | case6 _ live _ empty unended t filled bare =>
    obtain ⟨streaming,_,_,_,ended⟩ := streaming.refill_ok live empty unended filled
    exact none streaming fun _ => ended bare
  | case7 _ live zero empty unended t filled more =>
    obtain ⟨streaming,live,first,rest,_⟩ := streaming.refill_ok live empty unended filled
    exact streaming.copyOut live (by rwa [first]) (pos_of_ne_zero zero) rest
  | case8 _ live zero part =>
    have inside := streaming.within
    refine streaming.copyOut live (fun none => part ?_) (pos_of_ne_zero zero) rfl
    have := drop_eq_nil_iff.mp none
    omega

end

section
variable (lob : Lob kind σ) (start : σ) (calls : List (Bool × Nat))

theorem afterCalls_concat (call : Bool × Nat) : afterCalls lob start (calls ++ [call]) =
      ((afterCalls lob start calls).1 ++ [(readChunk lob call.1 call.2 (afterCalls lob start calls).2).1],
        (readChunk lob call.1 call.2 (afterCalls lob start calls).2).2) := foldl_concat ..

theorem streaming_after :
    Streaming lob (lob.unread start) ((afterCalls lob start calls).1.flatMap returned) (afterCalls lob start calls).2 := by
  induction calls using reverseRecOn with
  | nil => exact ⟨List.nil_prefix,fun _ => rfl,fun _ => Utf8.whole_nil,by simp [afterCalls],le_refl _⟩
  | append_singleton calls call ih =>
    simpa [afterCalls_concat] using (ih.readChunk call.1 call.2).streaming

theorem length_le_received (sizes : ∀ call ∈ calls, 0 < call.2)
    (fine : ∀ outcome ∈ (afterCalls lob start calls).1, outcome.isOk = true) :
    calls.length ≤ ((afterCalls lob start calls).1.flatMap returned).length ∨
      (afterCalls lob start calls).1.flatMap returned = lob.unread start := by
  induction calls using reverseRecOn with
  | nil => exact .inl (le_refl _)
  | append_singleton calls call ih =>
    have answers := (streaming_after lob start calls).readChunk call.1 call.2
    simp only [afterCalls_concat,forall_mem_append,forall_mem_singleton,flatMap_append,
      flatMap_singleton,length_append,length_singleton] at sizes fine answers ⊢
    have grown := ih sizes.1 fine.1
    cases outcome : (readChunk lob call.1 call.2 (afterCalls lob start calls).2).1 with
    | error => rw [outcome] at fine; cases fine.2
    | ok chunk =>
      rw [outcome] at answers
      cases chunk with
      | nil => exact .inr ((append_nil _).trans (answers.ends rfl sizes.2))
      | cons byte chunk =>
        have bound := answers.streaming.started.length_le
        rw [length_append] at bound
        simp only [returned,length_cons] at bound ⊢
        rcases grown with short | all
        · omega
        · rw [all] at bound
          omega

end

/-- Whatever the sizes of the reads and of the buffers: what the calls return is a part of the object from
its start, in whole characters. An empty chunk says that this is all of it, which as many chunks as it has bytes reach;
a buffer that is too small for a character takes nothing. -/
theorem lob_streaming_is_lossless (lob : Lob kind σ) (start : σ) (calls : List (Bool × Nat)) :
    let run := afterCalls lob start calls
    let received := run.1.flatMap returned
    received <+: lob.unread start ∧
    (∀ closed max, Answers lob (lob.unread start) received closed max run.2 (readChunk lob closed max run.2).1
      (readChunk lob closed max run.2).2) ∧
    ((∀ call ∈ calls, 0 < call.2) → (∀ outcome ∈ run.1, outcome.isOk = true) →
      (lob.unread start).length < calls.length → received = lob.unread start) := by
  have streaming := streaming_after lob start calls
  refine ⟨streaming.started,streaming.readChunk,fun sizes fine long => ?_⟩
  refine (length_le_received lob start calls sizes fine).resolve_left fun short => ?_
  have := streaming.started.length_le
  omega

/-- A reader that takes two characters at a time, and says of a full buffer that it cuts one. -/
def textLob : Lob .character (List Char) where
  unread text := text.flatMap String.utf8EncodeChar
  read text limit :=
    if limit < stagingBytes then (.ok ((text.take 2).flatMap String.utf8EncodeChar),text.drop 2)
    else (.error "invalid utf-16".toList,text)
  reads {text limit bytes} read := by
    split_ifs at read ⊢
    cases read
    rw [← flatMap_append,take_append_drop]
  ends {text limit} none := by
    split_ifs at none
    cases text with
    | nil => rfl
    | cons c text => simp at none
  whole {text limit bytes} _ read := by
    split_ifs at read
    cases read
    exact ⟨_,rfl⟩
  keeps {text limit error} read _ := by
    split_ifs at read ⊢
    rfl

theorem refill_textLob (s : OracleLobStream (List Char)) : refill textLob s = (.ok (),{ s with
    lob := s.lob.drop 2
    staging := (s.lob.take 2).flatMap String.utf8EncodeChar
    position := 0
    exhausted := s.exhausted || ((s.lob.take 2).flatMap String.utf8EncodeChar).isEmpty }) := by
  have cut : readStaging textLob stagingBytes s.lob = readStaging textLob (stagingBytes - 3) s.lob := by
    conv_lhs => rw [readStaging]
    exact if_pos (by decide)
  have read : readStaging textLob (stagingBytes - 3) s.lob =
      (.ok ((s.lob.take 2).flatMap String.utf8EncodeChar),s.lob.drop 2) := by
    rw [readStaging]
    rfl
  rw [refill,cut,read]

/-- Both characters are staged, and the second does not fit the first buffer. -/
theorem text_is_read_in_small_buffers : (afterCalls textLob "é€".toList (replicate 6 (false,3))).1.take 2 =
      [.ok [0xC3,0xA9],.ok [0xE2,0x82,0xAC]] ∧
    (afterCalls textLob "é€".toList (replicate 6 (false,3))).1.flatMap returned = textLob.unread "é€".toList := by
  let staged : OracleLobStream (List Char) := { lob := [], staging := [0xC3,0xA9,0xE2,0x82,0xAC], position := 2 }
  have first : readChunk textLob false 3 { lob := "é€".toList } = (.ok [0xC3,0xA9],staged) := by
    simp only [readChunk,refill_textLob]
    rfl
  have second : readChunk textLob false 3 staged = (.ok [0xE2,0x82,0xAC],{ staged with position := 5 }) := rfl
  have third : readChunk textLob false 3 { staged with position := 5 } = (.ok [],{ lob := [], exhausted := true }) := by
    simp only [readChunk,refill_textLob]
    rfl
  have rest : readChunk textLob false 3 { lob := [], exhausted := true } = (.ok [],{ lob := [], exhausted := true }) := rfl
  have run : (afterCalls textLob "é€".toList (replicate 6 (false,3))).1 =
      [.ok [0xC3,0xA9],.ok [0xE2,0x82,0xAC],.ok [],.ok [],.ok [],.ok []] := by
    simp only [afterCalls,replicate,foldl,first,second,third,rest]
    rfl
  refine ⟨by rw [run]; rfl,(lob_streaming_is_lossless textLob _ _).2.2 (by simp) ?_ (by decide)⟩
  rw [run]
  decide

end Reldex.OracleThin
