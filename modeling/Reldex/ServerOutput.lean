import Reldex.DriverContract
import Reldex.Utf8Chunks

/-! Reading `DBMS_OUTPUT`. One call runs a PL/SQL block that packs as many lines as fit, each
behind its length in five digits, and hands the first line that does not fit back on its own.
The server forgets a line when it hands it over, so whatever is not returned is lost. -/
namespace Reldex.OracleThin
open List Nat

abbrev Bytes := List UInt8

def maxPackedBytes : Nat := 32767
def prefixWidth : Nat := 5

/-- A line of the server's buffer, converted to UTF-8. -/
structure Line where
  bytes : Bytes
  fits : bytes.length ≤ maxPackedBytes

abbrev NonZeroUsize := { n : Nat // 0 < n }

/-- `TO_CHAR(n, 'FM00000')`, as bytes. -/
def lengthPrefix (n : Nat) : Bytes :=
  [n / 10000 % 10,n / 1000 % 10,n / 100 % 10,n / 10 % 10,n % 10].map fun digit => .ofNat (48 + digit)

def framed (bytes : Bytes) : Bytes := lengthPrefix bytes.length ++ bytes

structure TakeState where
  buf : Bytes
  used : Nat
  count : Nat
  tail : Bytes
  hasTail : Bool
  drained : Bool

def TakeState.start : TakeState := ⟨[],0,0,[],false,false⟩

def TakeState.packs (s : TakeState) (line : Line) : TakeState :=
  { s with
    buf := s.buf ++ framed line.bytes
    used := s.used + prefixWidth + line.bytes.length
    count := s.count + 1 }

/-- The loop of the block, and what it leaves in the server's buffer. -/
def takeLoop (max budget : Nat) (s : TakeState) : List Line → TakeState × List Line
  | [] => (if s.count < max then { s with drained := true } else s,[])
  | line :: rest =>
    if s.count < max then
      if s.used + prefixWidth + line.bytes.length ≤ budget then
        takeLoop max budget (s.packs line) rest
      else ({ s with tail := line.bytes, hasTail := true, count := s.count + 1 },rest)
    else (s,line :: rest)

/-- An empty `RAW` is `NULL`. -/
def outRaw (bytes : Bytes) : Option Bytes := if bytes = [] then none else some bytes

structure TakeBinds where
  packed : Option Bytes
  tail : Option Bytes
  hasTail : Option Int
  count : Option Int
  drained : Option Int

def takeBlock (max budget : Nat) (buffer : List Line) : TakeBinds × List Line :=
  let (s,rest) := takeLoop max budget .start buffer
  (⟨outRaw s.buf,outRaw s.tail,some (if s.hasTail then 1 else 0),some s.count,some (if s.drained then 1 else 0)⟩,rest)

def framingError (detail : String) : DbError :=
  .new .dataConversion ("reldex-driver-oracle-thin: DBMS_OUTPUT lines could not be decoded (" ++ detail ++
    "); the lines this read took from the server are lost")

def isAsciiDigit (byte : UInt8) : Bool := 48 ≤ byte.toNat && byte.toNat ≤ 57

def parseLength (digits : Bytes) : Nat := digits.foldl (fun n digit => 10 * n + (digit.toNat - 48)) 0

structure Unpacked where
  lines : List Text
  invalid : Nat
  deriving DecidableEq, Repr

def Unpacked.push (read : Unpacked) (bytes : Bytes) : Unpacked :=
  ⟨read.lines ++ [(Utf8.decode bytes).1],read.invalid + if (Utf8.decode bytes).2 then 1 else 0⟩

/-- Every frame is at least a prefix long, so the buffer's length bounds the number of rounds. -/
def unpackLoop (expected : Nat) : Nat → Unpacked → Bytes → Except DbError Unpacked
  | _,read,[] => .ok read
  | 0,read,_ => .ok read
  | fuel + 1,read,byte :: bytes =>
    let rest := byte :: bytes
    let digits := rest.take prefixWidth
    if digits.length < prefixWidth ∨ ¬ digits.all isAsciiDigit then
      .error (framingError "a line's length prefix is missing or malformed")
    else
      let body := rest.drop prefixWidth
      if body.length < parseLength digits then
        .error (framingError "a line is shorter than its length prefix says")
      else
        let read := read.push (body.take (parseLength digits))
        if read.lines.length > expected then .error (framingError "more lines were decoded than the server sent")
        else unpackLoop expected fuel read (body.drop (parseLength digits))

def unpack (packed : Bytes) (expected : Nat) : Except DbError Unpacked :=
  unpackLoop expected packed.length ⟨[],0⟩ packed

structure ServerOutputChunk where
  lines : List Text
  drained : Bool
  invalidUtf8Lines : Nat
  deriving DecidableEq, Repr

def maxI32 : Nat := 2 ^ 31 - 1

def readBinds (binds : TakeBinds) : Except DbError ServerOutputChunk := do
  let count := binds.count.getD 0
  if count < 0 then
    throw (framingError "negative count")
  else
    let unpacked ← unpack (binds.packed.getD []) count.toNat
    let read := if binds.hasTail = some 1 then unpacked.push (binds.tail.getD []) else unpacked
    if read.lines.length ≠ count.toNat then
      throw (framingError ("the server reported " ++ toString count.toNat ++ " lines and " ++
        toString read.lines.length ++ " were decoded"))
    else
      return ⟨read.lines,binds.drained = some 1,read.invalid⟩

def take (maxLines maxBytes : NonZeroUsize) (buffer : List Line) : Except DbError ServerOutputChunk × List Line :=
  let (binds,rest) := takeBlock (min maxLines.val maxI32) (min maxBytes.val maxPackedBytes) buffer
  (readBinds binds,rest)

/-- Calls with these byte budgets, one after the other, until one reports the buffer drained. -/
def drain (maxLines : NonZeroUsize) : List NonZeroUsize → List Line →
    Except DbError (List ServerOutputChunk × List Line)
  | [],buffer => .ok ([],buffer)
  | budget :: budgets,buffer => do
    let (result,rest) := take maxLines budget buffer
    let chunk ← result
    if chunk.drained then
      return ([chunk],rest)
    else
      let (chunks,left) ← drain maxLines budgets rest
      return (chunk :: chunks,left)

@[simp] theorem length_lengthPrefix (n : Nat) : (lengthPrefix n).length = prefixWidth := rfl

theorem toNat_digit (n : Nat) : (UInt8.ofNat (48 + n % 10)).toNat = 48 + n % 10 := by
  rw [UInt8.toNat_ofNat']
  omega

theorem lengthPrefix_digits (n : Nat) : (lengthPrefix n).all isAsciiDigit = true := by
  have digit : ∀ m, isAsciiDigit (UInt8.ofNat (48 + m % 10)) = true := by
    intro m
    simp only [isAsciiDigit,toNat_digit,Bool.and_eq_true,decide_eq_true_eq]
    omega
  simp only [lengthPrefix,map_cons,map_nil,all_cons,all_nil,digit,Bool.and_true]

theorem parseLength_lengthPrefix (small : n < 100000) : parseLength (lengthPrefix n) = n := by
  simp only [parseLength,lengthPrefix,map_cons,map_nil,foldl_cons,foldl_nil,toNat_digit]
  omega

theorem length_framed (bytes : Bytes) : (framed bytes).length = prefixWidth + bytes.length := by
  simp [framed]

def Unpacked.pushAll (read : Unpacked) (lines : List Bytes) : Unpacked := lines.foldl .push read

theorem Unpacked.pushAll_lines (read : Unpacked) (lines : List Bytes) :
    (read.pushAll lines).lines = read.lines ++ lines.map fun bytes => (Utf8.decode bytes).1 := by
  induction lines generalizing read with
  | nil => simp [pushAll]
  | cons bytes lines ih =>
    change ((read.push bytes).pushAll lines).lines = _
    rw [ih]
    simp [push]

theorem Unpacked.pushAll_invalid (read : Unpacked) (lines : List Bytes) :
    (read.pushAll lines).invalid = read.invalid + lines.countP fun bytes => (Utf8.decode bytes).2 := by
  induction lines generalizing read with
  | nil => simp [pushAll]
  | cons bytes lines ih =>
    change ((read.push bytes).pushAll lines).invalid = _
    rw [ih,countP_cons]
    simp only [push]
    omega

theorem unpackLoop_frames (expected : Nat) {read : Unpacked}
    (small : ∀ bytes ∈ lines, bytes.length < 100000) (enough : (lines.flatMap framed).length ≤ fuel)
    (announced : read.lines.length + lines.length ≤ expected) :
    unpackLoop expected fuel read (lines.flatMap framed) = .ok (read.pushAll lines) := by
  induction lines generalizing fuel read with
  | nil => cases fuel <;> rfl
  | cons bytes lines ih =>
    have own := small bytes (mem_cons_self ..)
    have width : 0 < prefixWidth := by decide
    rw [flatMap_cons,length_append,length_framed] at enough
    cases fuel with
    | zero => omega
    | succ fuel =>
      obtain ⟨byte,left,same⟩ : ∃ byte left, (bytes :: lines).flatMap framed = byte :: left :=
        ⟨_,_,rfl⟩
      have digits : ((bytes :: lines).flatMap framed).take prefixWidth = lengthPrefix bytes.length := by
        rw [flatMap_cons,framed,append_assoc,take_left' (length_lengthPrefix _)]
      have body : ((bytes :: lines).flatMap framed).drop prefixWidth = bytes ++ lines.flatMap framed := by
        rw [flatMap_cons,framed,append_assoc,drop_left' (length_lengthPrefix _)]
      rw [same] at digits body ⊢
      have more : (read.push bytes).lines.length = read.lines.length + 1 := by simp [Unpacked.push]
      rw [length_cons] at announced
      unfold unpackLoop
      simp only [digits,body,length_lengthPrefix,lengthPrefix_digits,parseLength_lengthPrefix own,lt_irrefl,
        not_true_eq_false,or_self,if_false,take_left,drop_left]
      rw [if_neg (by rw [length_append]; omega),if_neg (by omega)]
      exact ih (fun other member => small other (mem_cons_of_mem _ member)) (by omega) (by omega)

theorem unpack_frames (small : ∀ bytes ∈ lines, bytes.length < 100000) (announced : lines.length ≤ expected) :
    unpack (lines.flatMap framed) expected = .ok (Unpacked.pushAll ⟨[],0⟩ lines) :=
  unpackLoop_frames expected small (le_refl _) (by simpa using announced)

/-- How the loop went: the lines it packed, and perhaps one more on its own. -/
structure Takes (max : Nat) (s : TakeState) (packed : List Line) (alone : Option Line) (ended : TakeState) : Prop where
  buf : ended.buf = s.buf ++ packed.flatMap (framed ·.bytes)
  count : ended.count = s.count + packed.length + alone.toList.length
  within : ended.count ≤ max
  tail : ∀ line ∈ alone, ended.tail = line.bytes
  hasTail : ended.hasTail = alone.isSome
  stops : ended.drained = false → ended.count = max ∨ alone.isSome = true

theorem takeLoop_takes (max budget : Nat) (s : TakeState) (buffer : List Line) (within : s.count ≤ max)
    (fresh : s.hasTail = false ∧ s.drained = false) :
    ∃ packed alone rest ended, takeLoop max budget s buffer = (ended,rest) ∧
      buffer = packed ++ alone.toList ++ rest ∧ Takes max s packed alone ended ∧ (ended.drained = true → rest = []) := by
  induction buffer generalizing s with
  | nil =>
    unfold takeLoop
    split_ifs with more
    · exact ⟨[],none,[],_,rfl,rfl,⟨by simp,by simp,within,by simp,fresh.1,by simp⟩,fun _ => rfl⟩
    · exact ⟨[],none,[],_,rfl,rfl,⟨by simp,by simp,within,by simp,fresh.1,fun _ => .inl (by omega)⟩,fun _ => rfl⟩
  | cons line buffer ih =>
    unfold takeLoop
    split_ifs with more fits
    · obtain ⟨packed,alone,rest,ended,ran,rfl,takes,drained⟩ := ih (s.packs line) more fresh
      refine ⟨line :: packed,alone,rest,ended,ran,rfl,⟨?_,?_,takes.within,takes.tail,takes.hasTail,takes.stops⟩,drained⟩
      · rw [takes.buf,TakeState.packs,flatMap_cons,append_assoc]
      · have packs : (s.packs line).count = s.count + 1 := rfl
        rw [takes.count,packs,length_cons]
        omega
    · refine ⟨[],some line,buffer,_,rfl,rfl,⟨by simp,by simp,more,?_,rfl,fun _ => .inr rfl⟩,fun drained => ?_⟩
      · rintro other ⟨⟩
        rfl
      · rw [fresh.2] at drained
        cases drained
    · refine ⟨[],none,line :: buffer,_,rfl,rfl,⟨by simp,by simp,within,by simp,fresh.1,fun _ => .inl (by omega)⟩,
        fun drained => ?_⟩
      rw [fresh.2] at drained
      cases drained

def chunkOf (lines : List Line) (drained : Bool) : ServerOutputChunk :=
  ⟨lines.map fun line => (Utf8.decode line.bytes).1,drained,lines.countP fun line => (Utf8.decode line.bytes).2⟩

theorem outRaw_getD (bytes : Bytes) : (outRaw bytes).getD [] = bytes := by
  unfold outRaw
  split_ifs with empty
  · exact empty.symm
  · rfl

theorem pushAll_concat (read : Unpacked) (lines : List Bytes) (bytes : Bytes) :
    (read.pushAll lines).push bytes = read.pushAll (lines ++ [bytes]) := by
  simp [Unpacked.pushAll]

theorem pushAll_eq (lines : List Line) : Unpacked.pushAll ⟨[],0⟩ (lines.map Line.bytes) =
    ⟨lines.map fun line => (Utf8.decode line.bytes).1,lines.countP fun line => (Utf8.decode line.bytes).2⟩ := by
  have texts := Unpacked.pushAll_lines ⟨[],0⟩ (lines.map Line.bytes)
  have invalid := Unpacked.pushAll_invalid ⟨[],0⟩ (lines.map Line.bytes)
  rw [nil_append,map_map] at texts
  rw [zero_add,countP_map] at invalid
  exact congr (congrArg Unpacked.mk texts) invalid

theorem unpack_lines {lines : List Line} (announced : lines.length ≤ expected) :
    unpack (lines.flatMap (framed ·.bytes)) expected = .ok (Unpacked.pushAll ⟨[],0⟩ (lines.map Line.bytes)) := by
  have small : ∀ bytes ∈ lines.map Line.bytes, bytes.length < 100000 := by
    intro bytes member
    obtain ⟨line,_,rfl⟩ := mem_map.mp member
    exact lt_of_le_of_lt line.fits (by decide)
  have frames : lines.flatMap (framed ·.bytes) = (lines.map Line.bytes).flatMap framed := by rw [flatMap_map]
  rw [frames]
  exact unpack_frames small (by simpa using announced)

theorem readBinds_takes {max : Nat} (takes : Takes max .start packed alone ended) :
    readBinds ⟨outRaw ended.buf,outRaw ended.tail,some (if ended.hasTail then 1 else 0),some ended.count,
      some (if ended.drained then 1 else 0)⟩ = .ok (chunkOf (packed ++ alone.toList) ended.drained) := by
  have buf : ended.buf = packed.flatMap (framed ·.bytes) := takes.buf
  have count : ended.count = packed.length + alone.toList.length := by
    rw [takes.count]
    simp [TakeState.start]
  have read := unpack_lines (show packed.length ≤ ended.count by omega)
  -- The line that did not fit is read behind the packed ones.
  have all : (if ended.hasTail = true then
        (Unpacked.pushAll ⟨[],0⟩ (packed.map Line.bytes)).push ended.tail
      else Unpacked.pushAll ⟨[],0⟩ (packed.map Line.bytes)) =
      Unpacked.pushAll ⟨[],0⟩ ((packed ++ alone.toList).map Line.bytes) := by
    rw [takes.hasTail]
    cases alone with
    | none => simp
    | some line =>
      rw [takes.tail line rfl,pushAll_concat]
      simp
  have flag : ∀ b : Bool, some (if b = true then (1 : Int) else 0) = some 1 ↔ b = true := by decide
  unfold readBinds
  simp only [Option.getD_some,outRaw_getD,Int.toNat_natCast,flag]
  rw [if_neg (by omega),buf,read]
  change (if (if ended.hasTail = true then
        (Unpacked.pushAll ⟨[],0⟩ (packed.map Line.bytes)).push ended.tail
      else Unpacked.pushAll ⟨[],0⟩ (packed.map Line.bytes)).lines.length ≠ ended.count then _ else _) = _
  rw [all,pushAll_eq,if_neg (by simp [count])]
  simp only [chunkOf,Bool.decide_eq_true]
  rfl

theorem take_splits (maxLines maxBytes : NonZeroUsize) (buffer : List Line) : ∃ taken rest drained,
    buffer = taken ++ rest ∧ take maxLines maxBytes buffer = (.ok (chunkOf taken drained),rest) ∧
    taken.length ≤ maxLines.val ∧ (drained = true → rest = []) ∧ (drained = false → taken ≠ []) := by
  obtain ⟨packed,alone,rest,ended,ran,rfl,takes,drained⟩ := takeLoop_takes (min maxLines.val maxI32)
    (min maxBytes.val maxPackedBytes) .start buffer (zero_le _) ⟨rfl,rfl⟩
  have count : ended.count = (packed ++ alone.toList).length := by
    rw [takes.count,length_append]
    simp [TakeState.start]
  have within := takes.within
  rw [count] at within
  refine ⟨packed ++ alone.toList,rest,ended.drained,rfl,?_,by omega,drained,fun undrained empty => ?_⟩
  · unfold take takeBlock
    rw [ran]
    exact congrArg (·,rest) (readBinds_takes takes)
  · have positive := maxLines.property
    have large : 0 < maxI32 := by decide
    rcases takes.stops undrained with full | left
    · rw [count,empty,length_nil] at full
      omega
    · obtain ⟨line,rfl⟩ := Option.isSome_iff_exists.mp left
      simp at empty

/-- A chunk returns these lines, no more than asked for, and is empty only when the buffer is. -/
def Returns (maxLines : NonZeroUsize) (chunk : ServerOutputChunk) (lines : List Line) : Prop :=
  chunk = chunkOf lines chunk.drained ∧ lines.length ≤ maxLines.val ∧ (lines = [] → chunk.drained = true)

/-- Calling `take` again and again returns the lines of the buffer, each once and in order, and
ends: one more call than there are lines is enough to report it drained. -/
theorem drain_is_lossless (maxLines : NonZeroUsize) (budgets : List NonZeroUsize) (buffer : List Line) :
    (∃ segments rest chunks, buffer = segments.flatten ++ rest ∧ drain maxLines budgets buffer = .ok (chunks,rest) ∧
      List.Forall₂ (Returns maxLines) chunks segments ∧
      ((∃ chunk ∈ chunks, chunk.drained = true) → rest = []) ∧
      (buffer.length < budgets.length → ∃ chunk ∈ chunks, chunk.drained = true)) ∧
    ∀ (lines : List Line) (expected : Nat), lines.length ≤ expected → unpack (lines.flatMap (framed ·.bytes)) expected =
        .ok ⟨lines.map fun line => (Utf8.decode line.bytes).1,lines.countP fun line => (Utf8.decode line.bytes).2⟩ := by
  refine ⟨?_,?_⟩
  · induction budgets generalizing buffer with
    | nil => exact ⟨[],buffer,[],rfl,rfl,.nil,by simp,by simp⟩
    | cons budget budgets ih =>
      obtain ⟨taken,left,drained,rfl,called,few,last,progress⟩ := take_splits maxLines budget buffer
      have returns : Returns maxLines (chunkOf taken drained) taken := by
        refine ⟨rfl,few,fun empty => ?_⟩
        by_contra undrained
        exact progress (Bool.eq_false_iff.mpr undrained) empty
      cases drained with
      | true =>
        refine ⟨[taken],left,[chunkOf taken true],by simp,?_,.cons returns .nil,fun _ => last rfl,
          fun _ => ⟨_,mem_singleton.mpr rfl,rfl⟩⟩
        unfold drain
        rw [called]
        rfl
      | false =>
        obtain ⟨segments,rest,chunks,split,drains,forall₂,ends,enough⟩ := ih left
        refine ⟨taken :: segments,rest,chunkOf taken false :: chunks,?_,?_,.cons returns forall₂,?_,?_⟩
        · rw [split,flatten_cons,append_assoc]
        · unfold drain
          rw [called]
          change (drain maxLines budgets left >>= fun r => .ok (chunkOf taken false :: r.1,r.2)) = _
          rw [drains]
          rfl
        · rintro ⟨chunk,member,done⟩
          rcases mem_cons.mp member with rfl | later
          · cases done
          · exact ends ⟨chunk,later,done⟩
        · intro more
          have some := length_pos_iff.mpr (progress rfl)
          rw [length_append,length_cons] at more
          obtain ⟨chunk,later,done⟩ := enough (by omega)
          exact ⟨chunk,mem_cons_of_mem _ later,done⟩
  · intro lines expected announced
    rw [unpack_lines announced,pushAll_eq]

end Reldex.OracleThin
