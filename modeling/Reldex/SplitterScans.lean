import Reldex.SqlSplitter

/-! What the scans of the splitter read and how they close. Every scan ends in one of
the four ways of `Closed`; `unchecked` are the tokens that a turn of the structured scan
passes over without looking for a lone `/` line. `Splits` is the loop of
`split_statements` without fuel and accumulator. -/
namespace Reldex
open Option

/-- A scan of `cur` that read `read`, the terminator included, and closed there. -/
inductive Closed (d : SqlDialect) (text : Text) (tokens : List Token) (contentStart : Nat) :
    List Token → List Token → ScanOutcome → Prop where
  | eof : Closed d text tokens contentStart cur cur (ranToEof tokens text kind)
  | slash (body : List Token) : slashLine text slash = true → Closed d text tokens contentStart (body ++ slash :: next) body
      (endAtSlashLine text slash kind next contentStart)
  | terminator (body : List Token) : isTerminator d text semi = true →
      Closed d text tokens contentStart (body ++ semi :: next) (body ++ [semi])
        ⟨semi.start,semi.stop,true,.terminator,next,.plain⟩
  | finished (body : List Token) : isTerminator d text semi = true →
      Closed d text tokens contentStart (body ++ semi :: next) (body ++ [semi])
        (finishWithMaybeSlash d text semi.start semi.stop next kind)

open List hiding after span
variable {d : SqlDialect} {text : Text} {tokens cur read : List Token} {contentStart : Nat}

theorem Closed.prepend (taken : List Token) (closed : Closed d text tokens contentStart cur read o) :
    Closed d text tokens contentStart (taken ++ cur) (taken ++ read) o := by
  cases closed with
  | eof => exact .eof
  | slash body found => rw [← append_assoc]; exact .slash _ found
  | terminator body found => rw [← append_assoc,← append_assoc]; exact .terminator _ found
  | finished body found => rw [← append_assoc,← append_assoc]; exact .finished _ found

def SlashFree (text : Text) (read : List Token) : Prop := ∀ t ∈ read, slashLine text t = false

@[simp] theorem slashFree_nil : SlashFree text [] := by simp [SlashFree]

@[simp] theorem slashFree_cons : SlashFree text (t :: read) ↔ slashLine text t = false ∧ SlashFree text read := by
  simp [SlashFree]

@[simp] theorem slashFree_append : SlashFree text (a ++ b) ↔ SlashFree text a ∧ SlashFree text b := by
  simp only [SlashFree,mem_append]
  exact ⟨fun h => ⟨fun t m => h t (.inl m),fun t m => h t (.inr m)⟩,fun h t m => m.elim (h.1 t) (h.2 t)⟩

theorem slashLine_operator (found : slashLine text t = true) : t.kind = .operator := by
  simp only [slashLine,Bool.and_eq_true,beq_iff_eq] at found
  exact found.1

theorem slashLine_of_kind (other : t.kind ≠ .operator) : slashLine text t = false := by
  rw [Bool.eq_false_iff]
  exact fun found => other (slashLine_operator found)

theorem word_not_operator (word : isWord kind = true) : kind ≠ .operator := by
  rintro rfl
  exact absurd word (by decide)

theorem trivial_not_operator (trivial : isTrivial kind = true) : kind ≠ .operator := by
  rintro rfl
  exact absurd trivial (by decide)

theorem skipTrivial_suffix (cur : List Token) : skipTrivial cur <:+ cur := dropWhile_suffix _

theorem skipTrivial_split (cur : List Token) :
    ∃ blank, cur = blank ++ skipTrivial cur ∧ ∀ t ∈ blank, isTrivial t.kind = true :=
  ⟨cur.takeWhile (isTrivial ·.kind),(takeWhile_append_dropWhile).symm,
    fun _ member => mem_takeWhile_imp (p := fun t : Token => isTrivial t.kind) member⟩

theorem skipTrivial_visible (found : skipTrivial cur = first :: rest) : isTrivial first.kind = false := by
  have head := List.head?_dropWhile_not (fun t : Token => isTrivial t.kind) cur
  rw [skipTrivial] at found
  simpa [found] using head

theorem skipTrivial_blank (blank : ∀ t ∈ front, isTrivial t.kind = true) :
    skipTrivial (front ++ cur) = skipTrivial cur := dropWhile_append_of_pos blank

theorem slashFree_blank (blank : ∀ t ∈ read, isTrivial t.kind = true) : SlashFree text read :=
  fun t member => slashLine_of_kind (trivial_not_operator (blank t member))

section
variable (d text tokens contentStart) (cur : List Token)

theorem scanPlain_closed :
    ∃ read, Closed d text tokens contentStart cur read (scanPlain d text tokens contentStart cur) ∧
      (d.slashTerminatesPlain = true → SlashFree text read) := by
  fun_induction scanPlain d text tokens contentStart cur with
  | case1 => exact ⟨[],.eof,by simp⟩
  | case2 token rest slash =>
    exact ⟨[],.slash [] ((Bool.and_eq_true ..).mp slash).2,by simp⟩
  | case3 token rest noSlash semi =>
    exact ⟨[token],.terminator [] semi,fun flag => by simpa [flag] using noSlash⟩
  | case4 token rest noSlash noSemi ih =>
    obtain ⟨read,closed,free⟩ := ih
    exact ⟨token :: read,closed.prepend [token],fun flag => by simpa [flag,free flag] using noSlash⟩

theorem scanOpaqueSource_closed :
    ∃ read, Closed d text tokens contentStart cur read (scanOpaqueSource text tokens contentStart cur) ∧
      SlashFree text read := by
  fun_induction scanOpaqueSource text tokens contentStart cur with
  | case1 => exact ⟨[],.eof,by simp⟩
  | case2 token rest slash => exact ⟨[],.slash [] slash,by simp⟩
  | case3 token rest noSlash ih =>
    obtain ⟨read,closed,free⟩ := ih
    exact ⟨token :: read,closed.prepend [token],by simpa [free] using noSlash⟩

variable (parenDepth : Int32) (cur : List Token)

theorem scanParenDelimited_closed :
    ∃ read, Closed d text tokens contentStart cur read (scanParenDelimited d text tokens contentStart parenDepth cur) ∧
      (d.slashTerminatesBlock = true → SlashFree text read) := by
  fun_induction scanParenDelimited d text tokens contentStart parenDepth cur with
  | case1 => exact ⟨[],.eof,by simp⟩
  | case2 parenDepth token rest slash =>
    exact ⟨[],.slash [] ((Bool.and_eq_true ..).mp slash).2,by simp⟩
  | case3 parenDepth token rest noSlash paren ih =>
    obtain ⟨read,closed,free⟩ := ih
    exact ⟨token :: read,closed.prepend [token],fun flag => by simpa [flag,free flag] using noSlash⟩
  | case4 parenDepth token rest noSlash noParen semi =>
    exact ⟨[token],.finished [] ((Bool.and_eq_true ..).mp semi).2,fun flag => by simpa [flag] using noSlash⟩
  | case5 parenDepth token rest noSlash noParen noSemi ih =>
    obtain ⟨read,closed,free⟩ := ih
    exact ⟨token :: read,closed.prepend [token],fun flag => by simpa [flag,free flag] using noSlash⟩

theorem scanToTerminator_closed :
    ∃ read, Closed d text tokens contentStart cur read (scanToTerminator d text tokens contentStart cur) ∧
      (d.slashTerminatesBlock = true → SlashFree text read) := by
  fun_induction scanToTerminator d text tokens contentStart cur with
  | case1 => exact ⟨[],.eof,by simp⟩
  | case2 token rest slash =>
    exact ⟨[],.slash [] ((Bool.and_eq_true ..).mp slash).2,by simp⟩
  | case3 token rest noSlash semi =>
    exact ⟨[token],.finished [] semi,fun flag => by simpa [flag] using noSlash⟩
  | case4 token rest noSlash noSemi ih =>
    obtain ⟨read,closed,free⟩ := ih
    exact ⟨token :: read,closed.prepend [token],fun flag => by simpa [flag,free flag] using noSlash⟩

variable {d text tokens contentStart}

theorem skipToTerminator_suffix : skipToTerminator d text cur <:+ cur := by
  fun_induction skipToTerminator d text cur with
  | case1 => exact suffix_rfl
  | case2 token rest semi => exact suffix_cons ..
  | case3 token rest noSemi ih => exact ih.trans (suffix_cons ..)

theorem scanHeader_suffix : (scanHeader d text tokens parenDepth cur).1 <:+ cur := by
  fun_induction scanHeader d text tokens parenDepth cur with
  | case1 => exact suffix_rfl
  | case2 parenDepth token rest operator paren ih => exact ih.trans (suffix_cons ..)
  | case3 parenDepth token rest operator noParen semi => exact suffix_cons ..
  | case4 parenDepth token rest operator noParen noSemi ih => exact ih.trans (suffix_cons ..)
  | case5 parenDepth token rest word intro spec =>
    exact ((skipToTerminator_suffix _).trans (skipTrivial_suffix _)).trans (suffix_cons ..)
  | case6 parenDepth token rest word intro noSpec => exact suffix_cons ..
  | case7 parenDepth token rest word noIntro ih => exact ih.trans (suffix_cons ..)

theorem skipEndQualifier_suffix : skipEndQualifier d text cur <:+ cur := by
  fun_induction skipEndQualifier d text cur with
  | case1 => exact suffix_rfl
  | case2 token rest trivial ih => exact ih.trans (suffix_cons ..)
  | case3 token rest visible semi => exact suffix_cons ..
  | case4 token rest visible noSemi word ih => exact ih.trans (suffix_cons ..)
  | case5 token rest visible noSemi noWord => exact suffix_rfl

theorem skipWords_suffix : skipWords cur <:+ cur := by
  fun_induction skipWords cur with
  | case1 => exact suffix_rfl
  | case2 token rest skipped ih => exact ih.trans (suffix_cons ..)
  | case3 token rest stop => exact suffix_rfl

def finishReads (d : SqlDialect) (text : Text) (after : List Token) : List Token :=
  match skipWords after with
  | [] => after
  | terminator :: rest => if isTerminator d text terminator then consumed after rest else after

theorem finishStructured_closed (after : List Token) :
    Closed d text tokens contentStart after (finishReads d text after) (finishStructured d text tokens after) := by
  have tail := skipWords_suffix after
  unfold finishReads finishStructured
  cases same : skipWords after with
  | nil => exact .eof
  | cons semi rest =>
    rw [same] at tail
    dsimp only
    split
    · rename_i found
      obtain ⟨front,rfl⟩ := tail
      rw [append_cons,consumed_front,← append_cons]
      exact .finished front found
    · exact .eof

end

section
variable (d : SqlDialect) (text : Text) (tokens : List Token)

/-- What a turn of the structured scan passes over unchecked, after its first token. -/
def unchecked (s : StructuredState) : List Token :=
  match s.rest with
  | [] => []
  | token :: rest =>
    let word := token.text text
    let compound := s.isCompound || d.sectionedBodyMarker.any (peekPhraseMatches text · (token :: rest))
    if !isWord token.kind || 0 < s.parenDepth then []
    else if s.awaitsBody && wordIn d.bodyLessMarkers word then []
    else if s.awaitsBody && isBodyIntro d text tokens word rest && isCallSpec d text rest then []
    else if isHeaderWord d compound word then consumed rest (scanHeader d text tokens 0 rest).1
    else if eqIgnoreAsciiCase word d.blockEndKeyword then
      if s.depth == 0 then finishReads d text rest else consumed rest (skipEndQualifier d text rest)
    else []

variable {d text tokens} {s t : StructuredState}

/-- A word's turn goes on behind what it passes over unchecked, or the scan it ends with does. -/
theorem structuredWord_reads (contentStart : Nat) (word : isWord token.kind = true) (outside : ¬ 0 < s.parenDepth)
    (here : s.rest = token :: rest) :
    (∃ t, structuredWord d text tokens contentStart s token rest = .next t ∧ rest = unchecked d text tokens s ++ t.rest) ∨
      ∃ o read, structuredWord d text tokens contentStart s token rest = .done o ∧
        Closed d text tokens contentStart rest read o ∧ (d.slashTerminatesBlock = true →
          (SlashFree text read ↔ SlashFree text (unchecked d text tokens s))) := by
  have awaits (compound : Bool) : StructuredState.awaitsBody { s with isCompound := compound } = s.awaitsBody := rfl
  simp only [structuredWord,awaits]
  simp only [unchecked,here,word,outside,Bool.not_true,decide_false,Bool.or_self,Bool.false_eq_true,↓reduceIte]
  split
  · obtain ⟨read,closed,free⟩ := scanToTerminator_closed d text tokens contentStart rest
    exact .inr ⟨_,read,rfl,closed,fun flag => by simp [free flag]⟩
  split
  · obtain ⟨blank,whole,trivial⟩ := skipTrivial_split rest
    obtain ⟨read,closed,free⟩ := scanToTerminator_closed d text tokens contentStart (skipTrivial rest)
    have closed := closed.prepend blank
    rw [← whole] at closed
    exact .inr ⟨_,blank ++ read,rfl,closed,fun flag => by simp [free flag,slashFree_blank trivial]⟩
  split
  · exact .inl ⟨_,rfl,(consumed_append (scanHeader_suffix 0 rest)).symm⟩
  split
  · split
    · exact .inr ⟨_,_,rfl,finishStructured_closed rest,fun _ => .rfl⟩
    · exact .inl ⟨_,rfl,(consumed_append (skipEndQualifier_suffix rest)).symm⟩
  · split
    · exact .inl ⟨_,rfl,rfl⟩
    · split <;> exact .inl ⟨_,rfl,rfl⟩

/-- One turn that goes on: it checks its first token and passes over `unchecked`. -/
theorem structuredTurn_next (moved : structuredTurn d text tokens contentStart s = .next t) :
    ∃ token, s.rest = token :: (unchecked d text tokens s ++ t.rest) ∧
      (d.slashTerminatesBlock = true → slashLine text token = false) := by
  unfold structuredTurn at moved
  cases here : s.rest with
  | nil => simp [here] at moved
  | cons token rest =>
    simp only [here] at moved
    split at moved
    · cases moved
    · rename_i noSlash
      refine ⟨token,?_,fun flag => by simpa [flag] using noSlash⟩
      split at moved
      · rename_i operator
        cases moved
        have noWord : isWord token.kind = false := by
          rw [beq_iff_eq.mp operator]
          decide
        simp [unchecked,here,noWord]
      · split at moved
        · rename_i skipped
          cases moved
          simp [unchecked,here,skipped]
        · rename_i inspected
          simp only [Bool.or_eq_true,Bool.not_eq_true',decide_eq_true_eq,not_or] at inspected
          rcases structuredWord_reads contentStart (by simpa using inspected.1) inspected.2 here with
            ⟨t,again,whole⟩ | ⟨_,_,done,_⟩
          · cases again.symm.trans moved
            exact congrArg (token :: ·) whole
          · cases done.symm.trans moved

theorem structuredTurn_done (returned : structuredTurn d text tokens contentStart s = .done o) :
    ∃ read, Closed d text tokens contentStart s.rest read o ∧ (d.slashTerminatesBlock = true →
      (SlashFree text read ↔ SlashFree text (unchecked d text tokens s))) := by
  unfold structuredTurn at returned
  cases here : s.rest with
  | nil =>
    simp only [here] at returned
    cases returned
    exact ⟨[],.eof,by simp [unchecked,here]⟩
  | cons token rest =>
    simp only [here] at returned
    split at returned
    · rename_i slash
      cases returned
      have slash := ((Bool.and_eq_true ..).mp slash).2
      have noWord : isWord token.kind = false := by
        rw [slashLine_operator slash]
        decide
      exact ⟨[],.slash [] slash,by simp [unchecked,here,noWord]⟩
    · rename_i noSlash
      split at returned
      · cases returned
      · split at returned
        · cases returned
        · rename_i inspected
          simp only [Bool.or_eq_true,Bool.not_eq_true',decide_eq_true_eq,not_or] at inspected
          obtain ⟨_,again,_⟩ | ⟨_,read,done,closed,same⟩ :=
            structuredWord_reads contentStart (by simpa using inspected.1) inspected.2 here
          · cases again.symm.trans returned
          cases done.symm.trans returned
          refine ⟨token :: read,closed.prepend [token],fun flag => ?_⟩
          rw [slashFree_cons,same flag,and_iff_right]
          simpa [flag] using noSlash

theorem structuredTurn_decreasing : Turn.Decreasing (structuredTurn d text tokens contentStart) (·.rest.length) := by
  intro s t moved
  obtain ⟨token,here,_⟩ := structuredTurn_next moved
  simp only [here,length_cons,length_append]
  omega

theorem scanStructured_ends (starter : BlockStarter) (rest : List Token) :
    Turn.Ends (structuredTurn d text tokens contentStart) (structuredStart starter rest)
      (scanStructured d text tokens contentStart starter rest) := by
  obtain ⟨o,ran⟩ : ∃ o, Turn.run (structuredTurn d text tokens contentStart) (rest.length + 1)
      (structuredStart starter rest) = some o :=
    Turn.run_total structuredTurn_decreasing (Nat.lt_succ_self _)
  rw [scanStructured,ran]
  exact Turn.ends_of_run ran

end

theorem skipOperator_suffix (found : skipOperator text spelling cur = some after) : after <:+ cur := by
  cases cur with
  | nil => cases found
  | cons token rest =>
    simp only [skipOperator,ite_none_right_eq_some] at found
    cases found.2
    exact suffix_cons ..

theorem skipName_suffix (cur : List Token) : skipName cur <:+ cur := by
  have tail := skipTrivial_suffix cur
  unfold skipName
  split
  · exact nil_suffix
  · rename_i name rest same
    rw [same] at tail
    split
    · exact (skipTrivial_suffix rest).trans ((suffix_cons ..).trans tail)
    · exact tail

theorem skipLabel_suffix (found : skipLabel text labels cur = some after) : after <:+ cur := by
  obtain ⟨rest,first,last⟩ := bind_eq_some_iff.mp found
  exact (skipOperator_suffix last).trans
    ((skipName_suffix rest).trans ((skipOperator_suffix first).trans (skipTrivial_suffix cur)))

theorem skipLabels_suffix (cur : List Token) : skipLabels d text cur <:+ cur := by
  have loop (labels : Text × Text) (fuel : Nat) (cur : List Token) : skipLabelsLoop text labels fuel cur <:+ cur := by
    fun_induction skipLabelsLoop text labels fuel cur with
    | case1 cur => exact suffix_rfl
    | case2 fuel cur none => exact suffix_rfl
    | case3 fuel cur after found ih => exact ih.trans (skipLabel_suffix found)
  unfold skipLabels
  split
  · exact suffix_rfl
  · exact loop _ _ _

theorem collectLeadingWords_suffix (left : Nat) (cur : List Token) :
    ∀ word ∈ collectLeadingWords text left cur, word.2 <:+ cur := by
  fun_induction collectLeadingWords text left cur with
  | case1 => simp
  | case2 => simp
  | case3 left token rest word ih =>
    intro found member
    rcases mem_cons.mp member with rfl | member
    · exact suffix_cons ..
    · exact (ih found member).trans (suffix_cons ..)
  | case4 left token rest noWord skipped ih =>
    exact fun found member => (ih found member).trans (suffix_cons ..)
  | case5 => simp

theorem matchesBlockStarter_mem {words : List (Text × α)} (found : matchesBlockStarter starter words start = some after) :
    after = start ∨ ∃ word ∈ words, after = word.2 := by
  simp only [matchesBlockStarter,map_eq_some_iff] at found
  obtain ⟨taken,_,rfl⟩ := found
  cases taken with
  | zero => exact .inl rfl
  | succ last =>
    cases word : words[last]? with
    | none => exact .inl (by simp [word])
    | some found => exact .inr ⟨found,mem_of_getElem? word,by simp [word]⟩

theorem matchedStarter_suffix (found : matchedStarter d text cur = some (starter,after)) : after <:+ cur := by
  obtain ⟨candidate,_,matched⟩ := exists_of_findSome?_eq_some found
  simp only [map_eq_some_iff,Prod.mk.injEq] at matched
  obtain ⟨_,matched,_,rfl⟩ := matched
  rcases matchesBlockStarter_mem matched with rfl | ⟨word,member,rfl⟩
  · exact skipLabels_suffix cur
  · exact (collectLeadingWords_suffix _ _ word member).trans (skipLabels_suffix cur)

theorem structured_closed (ended : Turn.Ends (structuredTurn d text tokens contentStart) s o) :
    ∃ read, Closed d text tokens contentStart s.rest read o ∧ (d.slashTerminatesBlock = true →
      (SlashFree text read ↔ ∀ t, Turn.Reaches (structuredTurn d text tokens contentStart) s t →
        SlashFree text (unchecked d text tokens t))) := by
  obtain ⟨last,path,returned⟩ := ended
  induction path with
  | refl =>
    obtain ⟨read,closed,same⟩ := structuredTurn_done returned
    refine ⟨read,closed,fun flag => (same flag).trans ⟨fun free t path => ?_,fun all => all _ .refl⟩⟩
    cases path with
    | refl => exact free
    | step moved _ => rw [returned] at moved; cases moved
  | step moved path ih =>
    obtain ⟨read,closed,same⟩ := ih returned
    obtain ⟨token,here,checked⟩ := structuredTurn_next moved
    rw [here,← cons_append]
    refine ⟨_,closed.prepend _,fun flag => ?_⟩
    rw [slashFree_append,slashFree_cons,same flag,and_iff_right (checked flag)]
    constructor
    · rintro ⟨first,later⟩ t path
      cases path with
      | refl => exact first
      | step again path =>
        rw [moved] at again
        cases again
        exact later t path
    · exact fun all => ⟨all _ .refl,fun t path => all t (.step moved path)⟩

/-- While this statement is scanned, no lone `/` line is among the tokens passed over
unchecked: the starter's own tokens and those of each turn of a structured scan. -/
def StatementClear (d : SqlDialect) (text : Text) (tokens : List Token) (contentStart : Nat)
    (start : List Token) : Prop :=
  ∀ starter after, matchedStarter d text start = some (starter,after) → SlashFree text (consumed start after) ∧
      (starter.kind = .structured → ∀ t, Turn.Reaches (structuredTurn d text tokens contentStart)
        (structuredStart starter after) t → SlashFree text (unchecked d text tokens t))

theorem scanStatement_closed (d : SqlDialect) (text : Text) (tokens : List Token) (contentStart : Nat)
    (start : List Token) :
    ∃ read, Closed d text tokens contentStart start read (scanStatement d text tokens contentStart start) ∧
      (d.slashTerminatesBlock = true → d.slashTerminatesPlain = true →
        (SlashFree text read ↔ StatementClear d text tokens contentStart start)) := by
  unfold scanStatement StatementClear
  cases matched : matchedStarter d text start with
  | none =>
    obtain ⟨read,closed,free⟩ := scanPlain_closed d text tokens contentStart start
    exact ⟨read,closed,fun _ plain => by simp [free plain]⟩
  | some found =>
    obtain ⟨starter,after⟩ := found
    have whole := consumed_append (matchedStarter_suffix matched)
    have back {o : ScanOutcome} {later : Prop} (h : ∃ read, Closed d text tokens contentStart after read o ∧
          (d.slashTerminatesBlock = true → (SlashFree text read ↔ later))) :
        ∃ read, Closed d text tokens contentStart start read o ∧ (d.slashTerminatesBlock = true →
          (SlashFree text read ↔ SlashFree text (consumed start after) ∧ later)) := by
      obtain ⟨read,closed,free⟩ := h
      have closed := closed.prepend (consumed start after)
      rw [whole] at closed
      exact ⟨_,closed,fun flag => by rw [slashFree_append,free flag]⟩
    cases kind : starter.kind with
    | structured =>
      simp only [kind]
      obtain ⟨read,closed,free⟩ := back (structured_closed (scanStructured_ends starter after))
      exact ⟨read,closed,fun flag _ => by simpa [kind,structuredStart] using free flag⟩
    | opaqueSource =>
      simp only [kind]
      obtain ⟨read,closed,free⟩ := scanOpaqueSource_closed d text tokens contentStart after
      obtain ⟨read,closed,free⟩ := back ⟨read,closed,fun _ => iff_true_intro free⟩
      exact ⟨read,closed,fun flag _ => by simpa [kind] using free flag⟩
    | parenDelimited =>
      simp only [kind]
      obtain ⟨read,closed,free⟩ := scanParenDelimited_closed d text tokens contentStart 0 after
      obtain ⟨read,closed,free⟩ := back ⟨read,closed,fun flag => iff_true_intro (free flag)⟩
      exact ⟨read,closed,fun flag _ => by simpa [kind] using free flag⟩

theorem followingSlash_split (found : followingSlash text cur = some (slash,rest)) :
    ∃ between, cur = between ++ slash :: rest ∧ SlashFree text between ∧ slashLine text slash = true := by
  fun_induction followingSlash text cur with
  | case1 => cases found
  | case2 token more skipped ih =>
    obtain ⟨between,rfl,free,lone⟩ := ih found
    refine ⟨token :: between,rfl,slashFree_cons.mpr ⟨slashLine_of_kind ?_,free⟩,lone⟩
    intro operator
    rw [operator] at skipped
    exact absurd skipped (by decide)
  | case3 token more stop lone => cases found; exact ⟨[],rfl,slashFree_nil,lone⟩
  | case4 token more stop other => cases found

theorem finishWithMaybeSlash_cases (d : SqlDialect) (text : Text) (contentEnd semiEnd : Nat)
    (next : List Token) (kind : StatementKind) :
    finishWithMaybeSlash d text contentEnd semiEnd next kind =
        ⟨contentEnd,semiEnd,d.blockMayEndWithoutSlash,.inferredBlockEnd,next,kind⟩ ∨
      ∃ between slash rest, next = between ++ slash :: rest ∧ SlashFree text between ∧
        slashLine text slash = true ∧ finishWithMaybeSlash d text contentEnd semiEnd next kind =
          ⟨contentEnd,trailingLineEnd text slash.stop,true,.slashLine,rest,kind⟩ := by
  cases found : (if d.slashTerminatesBlock then followingSlash text next else none) with
  | none => exact .inl (by rw [finishWithMaybeSlash,found])
  | some pair =>
    obtain ⟨slash,rest⟩ := pair
    obtain ⟨between,whole,free,lone⟩ := followingSlash_split (ite_none_right_eq_some.mp found).2
    exact .inr ⟨between,slash,rest,whole,free,lone,by rw [finishWithMaybeSlash,found]⟩

theorem suffix_of_split {first x : Token} {next : List Token} (same : first :: rest = body ++ x :: next) : next <:+ rest := by
  cases body with
  | nil => cases same; exact suffix_rfl
  | cons _ body =>
    cases same
    exact (suffix_cons ..).trans (suffix_append ..)

theorem Closed.next_suffix (closed : Closed d text tokens contentStart (first :: rest) read o) : o.next <:+ rest := by
  generalize same : first :: rest = cur at closed
  cases closed with
  | eof => exact nil_suffix
  | slash body lone => exact suffix_of_split same
  | terminator body found => exact suffix_of_split same
  | @finished semi next kind body found =>
    rcases finishWithMaybeSlash_cases d text semi.start semi.stop next kind with
      inferred | ⟨between,slash,after,rfl,_,_,ended⟩
    · rw [inferred]
      exact suffix_of_split same
    · rw [ended]
      exact ((suffix_cons ..).trans (suffix_append ..)).trans (suffix_of_split same)

/-- The loop of `split_statements` from a token index and a position. -/
inductive Splits (d : SqlDialect) (text : Text) (tokens : List Token) :
    List Token → PositionCursor → List StatementSpan → Prop where
  | stop : skipTrivial rest = [] → Splits d text tokens rest cursor []
  | idle : skipTrivial rest = first :: more → idleSlash d text first = true →
      Splits d text tokens more cursor spans → Splits d text tokens rest cursor spans
  | statement : skipTrivial rest = first :: more → idleSlash d text first = false →
      scanStatement d text tokens first.start (first :: more) = o →
      cursor.advanceTo text first.start = start →
      Splits d text tokens o.next (start.advanceTo text o.fullEnd) spans →
      Splits d text tokens rest cursor (o.span start :: spans)

def statementSpan (d : SqlDialect) (text : Text) (tokens : List Token) (cursor : PositionCursor)
    (first : Token) (rest : List Token) : StatementSpan :=
  (scanStatement d text tokens first.start (first :: rest)).span (cursor.advanceTo text first.start)

theorem splitTurn_cases (d : SqlDialect) (text : Text) (tokens : List Token) (s : SplitState) :
    (skipTrivial s.rest = [] ∧ splitTurn d text tokens s = .done s.spans) ∨
      ∃ first rest, skipTrivial s.rest = first :: rest ∧
        ((idleSlash d text first = true ∧ splitTurn d text tokens s = .next { s with rest := rest }) ∨
          (idleSlash d text first = false ∧ ∃ cursor, splitTurn d text tokens s =
            .next ⟨(scanStatement d text tokens first.start (first :: rest)).next,cursor,
              s.spans ++ [statementSpan d text tokens s.cursor first rest]⟩)) := by
  unfold splitTurn
  cases here : skipTrivial s.rest with
  | nil => exact .inl ⟨rfl,rfl⟩
  | cons first rest =>
    refine .inr ⟨first,rest,rfl,?_⟩
    cases lone : idleSlash d text first with
    | true => exact .inl ⟨rfl,by simp [lone]⟩
    | false => exact .inr ⟨rfl,_,by simp only [lone]; rfl⟩

theorem splitTurn_next (moved : splitTurn d text tokens s = .next t) :
    ∃ first rest, skipTrivial s.rest = first :: rest ∧ t.rest <:+ rest := by
  rcases splitTurn_cases d text tokens s with
    ⟨_,same⟩ | ⟨first,rest,here,⟨_,same⟩ | ⟨_,cursor,same⟩⟩
  · rw [moved] at same
    cases same
  · rw [moved] at same
    cases same
    exact ⟨first,rest,here,suffix_rfl⟩
  · rw [moved] at same
    cases same
    obtain ⟨read,closed,_⟩ := scanStatement_closed d text tokens first.start (first :: rest)
    exact ⟨first,rest,here,closed.next_suffix⟩

theorem splitTurn_suffix (moved : splitTurn d text tokens s = .next t) : t.rest <:+ s.rest := by
  obtain ⟨first,rest,here,tail⟩ := splitTurn_next moved
  exact (tail.trans (suffix_cons ..)).trans (here ▸ skipTrivial_suffix s.rest)

theorem splitTurn_decreasing : Turn.Decreasing (splitTurn d text tokens) (·.rest.length) := by
  intro s t moved
  obtain ⟨first,rest,here,tail⟩ := splitTurn_next moved
  have whole := (skipTrivial_suffix s.rest).length_le
  have shorter := tail.length_le
  rw [here,length_cons] at whole
  exact Nat.lt_of_le_of_lt shorter whole

theorem splitTokens_ends (d : SqlDialect) (text : Text) (tokens : List Token) :
    Turn.Ends (splitTurn d text tokens) (splitStart tokens) (splitTokens d text tokens) := by
  obtain ⟨spans,ran⟩ : ∃ spans,
      Turn.run (splitTurn d text tokens) (tokens.length + 1) (splitStart tokens) = some spans :=
    Turn.run_total splitTurn_decreasing (Nat.lt_succ_self _)
  rw [splitTokens,ran]
  exact Turn.ends_of_run ran

theorem splits_of_ends (ended : Turn.Ends (splitTurn d text tokens) s spans) :
    ∃ later, spans = s.spans ++ later ∧ Splits d text tokens s.rest s.cursor later := by
  obtain ⟨last,path,returned⟩ := ended
  induction path with
  | @refl s =>
    unfold splitTurn at returned
    cases here : skipTrivial s.rest with
    | nil =>
      simp only [here] at returned
      cases returned
      exact ⟨[],by simp,.stop here⟩
    | cons first rest =>
      simp only [here] at returned
      split at returned <;> cases returned
  | @step s t u moved path ih =>
    obtain ⟨later,same,splits⟩ := ih returned
    unfold splitTurn at moved
    cases here : skipTrivial s.rest with
    | nil => simp [here] at moved
    | cons first rest =>
      simp only [here] at moved
      split at moved
      · rename_i lone
        cases moved
        exact ⟨later,same,.idle here lone splits⟩
      · rename_i real
        cases moved
        exact ⟨_ :: later,by simpa using same,.statement here (by simpa using real) rfl rfl splits⟩

theorem splitTokens_splits (tokens : List Token) : Splits d text tokens tokens ⟨0,1,1⟩ (splitTokens d text tokens) := by
  obtain ⟨later,same,splits⟩ := splits_of_ends (splitTokens_ends d text tokens)
  rw [same]
  exact splits

/-- A state of the loop in which a statement starts, and its tokens. -/
structure StatementStart (d : SqlDialect) (text : Text) (tokens : List Token) (s : SplitState)
    (first : Token) (rest : List Token) : Prop where
  reached : Turn.Reaches (splitTurn d text tokens) (splitStart tokens) s
  found : skipTrivial s.rest = first :: rest
  real : idleSlash d text first = false

theorem StatementStart.suffix (here : StatementStart d text tokens s first rest) : first :: rest <:+ tokens := by
  have tail : s.rest <:+ tokens := here.reached.invariant (·.rest <:+ tokens)
    (fun _ _ before moved => (splitTurn_suffix moved).trans before) suffix_rfl
  exact here.found ▸ (skipTrivial_suffix s.rest).trans tail

theorem mem_splitTokens : span ∈ splitTokens d text tokens ↔ ∃ s first rest, StatementStart d text tokens s first rest ∧
      statementSpan d text tokens s.cursor first rest = span := by
  have ended := splitTokens_ends d text tokens
  constructor
  · intro member
    obtain ⟨last,path,returned⟩ := ended
    have origins := path.invariant (fun s => Turn.Reaches (splitTurn d text tokens) (splitStart tokens) s ∧
      ∀ span ∈ s.spans, ∃ s first rest, StatementStart d text tokens s first rest ∧
        statementSpan d text tokens s.cursor first rest = span)
      (fun s t before moved => ⟨before.1.trans (.single moved),?_⟩) ⟨.refl,by simp [splitStart]⟩
    · rcases splitTurn_cases d text tokens last with
        ⟨_,same⟩ | ⟨_,_,_,⟨_,same⟩ | ⟨_,_,same⟩⟩
      · rw [returned,Turn.done.injEq] at same
        exact origins.2 span (same ▸ member)
      all_goals
        rw [returned] at same
        cases same
    · rcases splitTurn_cases d text tokens s with
        ⟨_,same⟩ | ⟨first,rest,here,⟨_,same⟩ | ⟨real,cursor,same⟩⟩
      all_goals
        rw [moved] at same
        cases same
      · exact before.2
      · intro span member
        rcases mem_append.mp member with member | member
        · exact before.2 span member
        · exact ⟨s,first,rest,⟨before.1,here,real⟩,(mem_singleton.mp member).symm⟩
  · rintro ⟨s,first,rest,here,rfl⟩
    obtain ⟨later,same,splits⟩ := splits_of_ends (ended.after here.reached)
    rw [same,mem_append]
    cases splits with
    | stop none => rw [here.found] at none; cases none
    | idle found lone _ =>
      rw [here.found] at found
      cases found
      rw [here.real] at lone
      cases lone
    | statement found real scanned moved _ =>
      rw [here.found] at found
      cases found
      subst scanned moved
      exact .inr (mem_cons_self ..)

end Reldex
