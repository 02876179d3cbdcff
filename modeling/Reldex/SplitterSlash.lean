import Reldex.SplitterSpans

/-! Which lone `/` lines are authoritative. Every scan but the structured one stops at
each of them; the structured one passes over some tokens unchecked, and those are all
that can hide one. -/
namespace Reldex
open List
variable {d : SqlDialect} {text : Text} {done more ls : List Lexeme} {final : Mode} {read : List Token}

/-- The `/` line closes the span: it is outside the content and the span ends with its line. -/
structure EndsAt (text : Text) (span : StatementSpan) (slash : Token) : Prop where
  endedBy : span.endedBy = .slashLine
  outside : span.contentEnd ≤ slash.start
  fullEnd : span.fullEnd = trailingLineEnd text slash.stop

theorem slashLine_text (whole : text = flat (done ++ l :: more)) (lone : slashLine text (tokenAt done l) = true) :
    l.text = ['/'] := by
  simp only [slashLine,isLoneSlashLine,Bool.and_eq_true,beq_iff_eq] at lone
  rw [← lone.2.1.1,Token.text_tokenAt whole]

section
variable (lexing : Lexing text ls final)
include lexing

theorem slashLine_nonempty (member : t ∈ tokensFrom [] ls) (lone : slashLine text t = true) : t.start < t.stop := by
  obtain ⟨front,back,same⟩ := append_of_mem member
  obtain ⟨a,l,b,rfl,_,rfl,_⟩ := tokensFrom_split_cons same
  have spelled : l.text = ['/'] := slashLine_text lexing.flat.symm lone
  simp [tokenAt,spelled]

theorem slash_before_trimmed (whole : ls = done ++ more)
    (member : t ∈ tokensFrom [] done) (lone : slashLine text t = true) : t.stop ≤ len (trimEnd (flat done)) := by
  obtain ⟨front,back,same⟩ := append_of_mem member
  obtain ⟨a,l,b,rfl,_,rfl,_⟩ := tokensFrom_split_cons same
  have split : text = flat (a ++ l :: (b ++ more)) := by rw [← lexing.flat,whole]; simp
  have spelled := slashLine_text split lone
  have kept := len_trimEnd (c := '/') (by decide) (flat a) (flat b)
  simpa [tokenAt,spelled] using kept

theorem trailingLineEnd_slash (member : t ∈ tokensFrom [] ls)
    (lone : slashLine text t = true) : t.stop ≤ trailingLineEnd text t.stop := by
  obtain ⟨front,back,same⟩ := append_of_mem member
  obtain ⟨a,l,b,rfl,_,rfl,_⟩ := tokensFrom_split_cons same
  obtain ⟨blank,later,_,_,_,stop⟩ := slashLine_tail lexing rfl lone
  rw [nil_append] at *
  rw [stop]
  simp [tokenAt]

theorem trailingLineEnd_lt (whole : ls = done ++ l :: between ++ k :: more)
    (first : slashLine text (tokenAt done l) = true)
    (second : slashLine text (tokenAt (done ++ l :: between) k) = true) :
    trailingLineEnd text (tokenAt done l).stop < trailingLineEnd text (tokenAt (done ++ l :: between) k).stop := by
  have spelled : k.text = ['/'] := slashLine_text (whole ▸ lexing.flat.symm) second
  have split : ls = done ++ l :: (between ++ k :: more) := by simp [whole]
  obtain ⟨blank,later,same,trivials,_,stop⟩ := slashLine_tail lexing split first
  have shorter : len (flat (done ++ l :: blank)) ≤ len (flat (done ++ l :: between)) := by
    rcases append_eq_append_iff.mp same with ⟨extra,rfl,rest⟩ | ⟨extra,rfl,rest⟩
    · cases extra with
      | nil => simp
      | cons x extra =>
        cases rest
        have operator : k.kind = .operator := slashLine_operator second
        rcases trivials k (by simp) with blank | comment
        · rw [operator] at blank; cases blank
        · rw [operator] at comment; cases comment
    · simp
  have after := trailingLineEnd_slash lexing (t := tokenAt (done ++ l :: between) k)
    (by rw [whole,tokensFrom_append]; simp) second
  have longer : (tokenAt (done ++ l :: between) k).stop = len (flat (done ++ l :: between)) + 1 := by
    simp only [tokenAt,spelled]
    rfl
  omega

end

theorem Closed.read_subset (closed : Closed d text tokens contentStart cur read o) : ∀ t ∈ read, t ∈ cur := by
  intro t member
  cases closed with
  | eof => exact member
  | slash body _ => exact mem_append_left _ member
  | terminator body _ => rw [append_cons]; exact mem_append_left _ member
  | finished body _ => rw [append_cons]; exact mem_append_left _ member

/-- A lone `/` line that a scan has read is in the content, or is taken for a terminator. -/
theorem Closed.hides (lexing : Lexing text ls final) (whole : ls = done ++ more)
    (position : start.pos = len (flat done))
    (closed : Closed d text (tokensFrom [] ls) (len (flat done)) (tokensFrom done more) read o)
    (member : t ∈ read) (lone : slashLine text t = true) :
    (o.span start).contentStart ≤ t.start ∧ (t.start < (o.span start).contentEnd ∨
      (t.start < (o.span start).fullEnd ∧ ¬ EndsAt text (o.span start) t)) := by
  have inside : t ∈ tokensFrom done more := closed.read_subset t member
  have everywhere : t ∈ tokensFrom [] ls := by
    rw [whole,tokensFrom_append]
    exact mem_append_right _ inside
  have visible := slashLine_nonempty lexing everywhere lone
  have range := tokensFrom_range inside
  refine ⟨by rw [← position] at range; exact range.1,?_⟩
  -- A `/` before the token at `stop` lies before its start.
  have body (a : List Lexeme) (l : Lexeme) (early : t ∈ tokensFrom done a) :
      t.start < (tokenAt (done ++ a) l).start := by
    have := tokensFrom_range early
    simp only [tokenAt]
    omega
  generalize cut : tokensFrom done more = cur at closed
  cases closed with
  | eof =>
    have nonempty : ls ≠ [] := by rintro rfl; simp at everywhere
    rw [ranToEof_span lexing nonempty]
    rw [← whole,lexing.flat] at range
    exact .inl (Nat.lt_of_lt_of_le visible range.2.2)
  | slash before _ =>
    obtain ⟨a,l,b,rfl,rfl,rfl,rfl⟩ := tokensFrom_split_cons cut
    have early : t ∈ tokensFrom [] (done ++ a) := by
      rw [tokensFrom_append]
      exact mem_append_right _ member
    have regroup : ls = (done ++ a) ++ l :: b := by simp [whole]
    have kept := slash_before_trimmed lexing regroup early lone
    have front : sliceTo text (tokenAt (done ++ a) l).start = flat (done ++ a) :=
      sliceTo_tokenAt (regroup ▸ lexing.flat.symm)
    left
    simp only [ScanOutcome.span,endAtSlashLine,front]
    omega
  | terminator before _ =>
    obtain ⟨a,l,b,rfl,rfl,rfl,rfl⟩ := tokensFrom_split_cons cut
    rcases mem_append.mp member with early | last
    · exact .inl (body a l early)
    · cases mem_singleton.mp last
      exact .inr ⟨visible,fun ends => by cases ends.endedBy⟩
  | @finished _ _ kind before _ =>
    obtain ⟨a,l,b,rfl,rfl,rfl,rfl⟩ := tokensFrom_split_cons cut
    rcases finishWithMaybeSlash_cases d text (tokenAt (done ++ a) l).start (tokenAt (done ++ a) l).stop
      (tokensFrom (done ++ a ++ [l]) b) kind with same | ⟨between,slash,rest,cut,_,second,same⟩
    all_goals rw [same]
    · rcases mem_append.mp member with early | last
      · exact .inl (body a l early)
      · cases mem_singleton.mp last
        exact .inr ⟨visible,fun ends => by cases ends.endedBy⟩
    · rcases mem_append.mp member with early | last
      · exact .inl (body a l early)
      · cases mem_singleton.mp last
        obtain ⟨m,k,c,rfl,rfl,rfl,rfl⟩ := tokensFrom_split_cons cut
        have regroup : ls = (done ++ a) ++ l :: m ++ k :: c := by simp [whole]
        have shape : done ++ a ++ [l] ++ m = (done ++ a) ++ l :: m := by simp
        rw [shape] at second ⊢
        have later := trailingLineEnd_lt lexing regroup lone second
        have first := trailingLineEnd_slash lexing everywhere lone
        right
        simp only [ScanOutcome.span]
        exact ⟨by omega,fun ends => by have := ends.fullEnd; simp only at this; omega⟩

/-- Any other lone `/` line of the span is the one that ended it. -/
theorem Closed.ends (lexing : Lexing text ls final) (whole : ls = done ++ more)
    (closed : Closed d text (tokensFrom [] ls) (len (flat done)) (tokensFrom done more) read o)
    (inside : t ∈ tokensFrom done more) (lone : slashLine text t = true) (before : t.start < o.fullEnd)
    (unread : t ∉ read) : EndsAt text (o.span start) t := by
  -- Nothing after a `/` line and before the end of that line is a `/` line.
  have beyond (a : List Lexeme) (l : Lexeme) (b : List Lexeme) (regroup : ls = a ++ l :: b)
      (slash : slashLine text (tokenAt a l) = true) (late : t ∈ tokensFrom (a ++ [l]) b) :
      trailingLineEnd text (tokenAt a l).stop ≤ t.start := by
    obtain ⟨blank,later,rfl,trivials,_,stop⟩ := slashLine_tail lexing regroup slash
    rw [tokensFrom_append,mem_append] at late
    rcases late with late | late
    · have trivial := tokensFrom_trivial trivials t late
      exact absurd (slashLine_operator lone) (trivial_not_operator trivial)
    · have := (tokensFrom_range late).1
      rw [stop]
      simpa using this
  generalize cut : tokensFrom done more = cur at closed inside
  cases closed with
  | eof => exact absurd inside unread
  | slash body slash =>
    obtain ⟨a,l,b,rfl,rfl,rfl,rfl⟩ := tokensFrom_split_cons cut
    have regroup : ls = (done ++ a) ++ l :: b := by simp [whole]
    rcases mem_append.mp inside with early | late
    · exact absurd early unread
    · rcases mem_cons.mp late with rfl | late
      · have shorter := len_trimEnd_le (flat a)
        have front : sliceTo text (tokenAt (done ++ a) l).start = flat done ++ flat a := by
          rw [sliceTo_tokenAt (regroup ▸ lexing.flat.symm),flat_append]
        refine ⟨rfl,?_,rfl⟩
        simp only [ScanOutcome.span,endAtSlashLine,front,trimmed_content]
        simpa [tokenAt] using shorter
      · have := beyond _ _ _ regroup slash late
        exact absurd before (by simpa [endAtSlashLine] using this)
  | @terminator semi next body _ =>
    obtain ⟨a,l,b,rfl,rfl,rfl,rfl⟩ := tokensFrom_split_cons cut
    rw [append_cons,mem_append] at inside
    rcases inside with early | late
    · exact absurd early unread
    · have := (tokensFrom_range late).1
      simp only [tokenAt,flat_append,flat_cons,flat_nil,len_append,len_nil] at this before
      omega
  | @finished _ _ kind body _ =>
    obtain ⟨a,l,b,rfl,rfl,rfl,rfl⟩ := tokensFrom_split_cons cut
    rw [append_cons,mem_append] at inside
    have late := inside.resolve_left unread
    rcases finishWithMaybeSlash_cases d text (tokenAt (done ++ a) l).start (tokenAt (done ++ a) l).stop
      (tokensFrom (done ++ a ++ [l]) b) kind with same | ⟨between,slash,rest,cut,free,second,same⟩
    all_goals rw [same] at before ⊢
    · have := (tokensFrom_range late).1
      simp only [tokenAt,flat_append,flat_cons,flat_nil,len_append,len_nil] at this before
      omega
    · obtain ⟨m,k,c,rfl,rfl,rfl,rfl⟩ := tokensFrom_split_cons cut
      have regroup : ls = (done ++ a ++ [l] ++ m) ++ k :: c := by simp [whole]
      rw [tokensFrom_append,mem_append] at late
      rcases late with early | late
      · exact absurd lone (by rw [free t early]; decide)
      · rw [tokensFrom_cons] at late
        rcases mem_cons.mp late with rfl | late
        · exact ⟨rfl,by simp [ScanOutcome.span,tokenAt],rfl⟩
        · have := beyond _ _ _ regroup second late
          exact absurd before (by simpa using this)

/-- Principle S1: a lone `/` line is in the content of no span, and it ends exactly one
span or lies in a gap. -/
def SlashAuthority (text : Text) (tokens : List Token) (spans : List StatementSpan) : Prop :=
  ∀ slash ∈ tokens, slashLine text slash = true →
    (∀ span ∈ spans, ¬ (span.contentStart ≤ slash.start ∧ slash.start < span.contentEnd)) ∧
      ((∃! span, span ∈ spans ∧ EndsAt text span slash) ∨
        ∀ span ∈ spans, ¬ (span.contentStart ≤ slash.start ∧ slash.start < span.fullEnd))

def ClearRun (d : SqlDialect) (text : Text) (tokens : List Token) : Prop :=
  ∀ s first rest, StatementStart d text tokens s first rest → StatementClear d text tokens first.start (first :: rest)

theorem StatementStart.closed (lexing : Lexing text ls final)
    (here : StatementStart d text (tokensFrom [] ls) s first rest) :
    ∃ done more read o start, ls = done ++ more ∧ start.pos = len (flat done) ∧
      statementSpan d text (tokensFrom [] ls) s.cursor first rest = o.span start ∧
      Closed d text (tokensFrom [] ls) (len (flat done)) (tokensFrom done more) read o ∧
      (d.slashTerminatesBlock = true → d.slashTerminatesPlain = true →
        (SlashFree text read ↔ StatementClear d text (tokensFrom [] ls) first.start (first :: rest))) := by
  obtain ⟨front,same⟩ := here.suffix
  obtain ⟨a,l,b,rfl,rfl,rfl,rfl⟩ := tokensFrom_split_cons same.symm
  obtain ⟨read,closed,free⟩ := scanStatement_closed d text (tokensFrom [] (a ++ l :: b))
    (tokenAt ([] ++ a) l).start (tokenAt ([] ++ a) l :: tokensFrom ([] ++ a ++ [l]) b)
  rw [nil_append] at *
  refine ⟨a,l :: b,read,_,_,rfl,?_,rfl,?_,free⟩
  · rfl
  · rw [tokensFrom_cons]
    exact closed

theorem covering_unique {spans : List StatementSpan} {a b : StatementSpan}
    (apart : spans.Pairwise fun a b => a.fullEnd ≤ b.contentStart)
    (first : a ∈ spans) (second : b ∈ spans) (inA : a.contentStart ≤ pos ∧ pos < a.fullEnd)
    (inB : b.contentStart ≤ pos ∧ pos < b.fullEnd) : a = b := by
  induction apart with
  | nil => cases first
  | cons before _ ih =>
    rcases mem_cons.mp first with rfl | early <;> rcases mem_cons.mp second with rfl | late
    · rfl
    · have := before b late
      omega
    · have := before a early
      omega
    · exact ih early late

/-- The code's slash rule holds of a document exactly when no statement of its run passes
over a lone `/` line unchecked. -/
theorem slash_authority_iff_clear_run (block : d.slashTerminatesBlock = true)
    (plain : d.slashTerminatesPlain = true) (tokenized : tokenize u d text = some tokens)
    (split : splitStatements u d text = some spans) :
    SlashAuthority text tokens spans ↔ ClearRun d text tokens := by
  obtain ⟨ls,lexed,rfl⟩ := Option.map_eq_some_iff.mp tokenized
  obtain ⟨final,lexing⟩ := lexemes_lexing lexed
  change SlashAuthority text (tokensFrom [] ls) spans ↔ ClearRun d text (tokensFrom [] ls)
  have splitted : spans = splitTokens d text (tokensFrom [] ls) := by
    rw [splitStatements,tokenized] at split
    exact (Option.some.inj split).symm
  subst splitted
  have partition : Partition text [] ls (splitTokens d text (tokensFrom [] ls)) := splitTokens_partition lexing
  have sound := partition.sound lexing.flat.symm
  -- A span that ends at a `/` covers it.
  have covers {span : StatementSpan} {slash : Token} (member : slash ∈ tokensFrom [] ls)
      (lone : slashLine text slash = true) (found : span ∈ splitTokens d text (tokensFrom [] ls))
      (ends : EndsAt text span slash) : span.contentStart ≤ slash.start ∧ slash.start < span.fullEnd := by
    have := slashLine_nonempty lexing member lone
    have := trailingLineEnd_slash lexing member lone
    have := ends.fullEnd
    have := ends.outside
    have := (sound span found).contentOrder
    omega
  constructor
  · intro authority s first rest here
    obtain ⟨done,more,read,o,start,whole,position,same,closed,clear⟩ := here.closed lexing
    refine (clear block plain).mp fun slash member => ?_
    by_contra lone
    have lone : slashLine text slash = true := by simpa using lone
    have everywhere : slash ∈ tokensFrom [] ls := by
      rw [whole,tokensFrom_append]
      exact mem_append_right _ (closed.read_subset slash member)
    have found : o.span start ∈ splitTokens d text (tokensFrom [] ls) :=
      mem_splitTokens.mpr ⟨s,first,rest,here,same⟩
    obtain ⟨outside,ended⟩ := authority slash everywhere lone
    obtain ⟨after,inContent | ⟨inFull,other⟩⟩ := closed.hides lexing whole position member lone
    · exact outside _ found ⟨after,inContent⟩
    · rcases ended with ⟨span,⟨present,ends⟩,_⟩ | gap
      · have := covering_unique partition.ordered present found (covers everywhere lone present ends) ⟨after,inFull⟩
        exact other (this ▸ ends)
      · exact gap _ found ⟨after,inFull⟩
  · intro clear slash member lone
    -- Whatever covers the `/` was ended by it.
    have ends (span : StatementSpan) (found : span ∈ splitTokens d text (tokensFrom [] ls))
        (inside : span.contentStart ≤ slash.start ∧ slash.start < span.fullEnd) : EndsAt text span slash := by
      obtain ⟨s,first,rest,here,rfl⟩ := mem_splitTokens.mp found
      obtain ⟨done,more,read,o,start,whole,position,same,closed,free⟩ := here.closed lexing
      have free := (free block plain).mpr (clear s first rest here)
      rw [same] at inside ⊢
      have late : slash ∈ tokensFrom done more := by
        rw [whole,tokensFrom_append,mem_append] at member
        rcases member with early | late
        · have := tokensFrom_range early
          have := slashLine_nonempty lexing (by rw [whole,tokensFrom_append]; exact mem_append_left _ early) lone
          have : start.pos ≤ slash.start := inside.1
          simp only [nil_append] at *
          omega
        · exact late
      exact closed.ends lexing whole late lone inside.2 fun unread =>
        absurd lone (by rw [free slash unread]; decide)
    refine ⟨fun span found inside => ?_,?_⟩
    · have := (sound span found).fullOrder
      have := (ends span found ⟨inside.1,by omega⟩).outside
      omega
    · by_cases covered : ∃ span ∈ splitTokens d text (tokensFrom [] ls),
          span.contentStart ≤ slash.start ∧ slash.start < span.fullEnd
      · obtain ⟨span,found,inside⟩ := covered
        refine .inl ⟨span,⟨found,ends span found inside⟩,fun other both => ?_⟩
        exact covering_unique partition.ordered both.1 found (covers member lone both.1 both.2) inside
      · exact .inr fun span found inside => covered ⟨span,found,inside⟩

theorem slash_authority_iff_clear_run_plain :
    ∃ tokens spans, tokenize asciiTables (oracleLike []) "SELECT 1\n/\n".toList = some tokens ∧
      splitStatements asciiTables (oracleLike []) "SELECT 1\n/\n".toList = some spans ∧
      (SlashAuthority "SELECT 1\n/\n".toList tokens spans ↔
        ClearRun (oracleLike []) "SELECT 1\n/\n".toList tokens) := by
  obtain ⟨tokens,tokenized⟩ := tokenize_total (u := asciiTables) (oracleLike_delimiters []) "SELECT 1\n/\n".toList
  have split : splitStatements asciiTables (oracleLike []) "SELECT 1\n/\n".toList =
      some [⟨0,8,11,1,1,.plain,.slashLine,true⟩] := by decide +kernel
  exact ⟨tokens,_,tokenized,split,slash_authority_iff_clear_run rfl rfl tokenized split⟩

/-- `END` without its terminator runs to the end of the input, over the `/` line. -/
theorem end_without_terminator_hides_slash :
    ∃ tokens spans, tokenize asciiTables (oracleLike []) "BEGIN NULL; END\n/\nSELECT 1;".toList = some tokens ∧
      splitStatements asciiTables (oracleLike []) "BEGIN NULL; END\n/\nSELECT 1;".toList = some spans ∧
      ¬ SlashAuthority "BEGIN NULL; END\n/\nSELECT 1;".toList tokens spans := by
  obtain ⟨tokens,tokenized⟩ := tokenize_total (u := asciiTables) (oracleLike_delimiters [])
    "BEGIN NULL; END\n/\nSELECT 1;".toList
  have member : (⟨.operator,16,17⟩ : Token) ∈ tokens := by
    have listed : (tokenize asciiTables (oracleLike []) "BEGIN NULL; END\n/\nSELECT 1;".toList).any
        (·.contains ⟨.operator,16,17⟩) = true := by decide +kernel
    rw [tokenized] at listed
    simpa using listed
  have split : splitStatements asciiTables (oracleLike []) "BEGIN NULL; END\n/\nSELECT 1;".toList =
      some [⟨0,27,27,1,1,.block,.endOfInput,false⟩] := by decide +kernel
  refine ⟨tokens,_,tokenized,split,fun authority => ?_⟩
  exact (authority _ member (by decide +kernel)).1 _ (mem_singleton.mpr rfl) ⟨by decide,by decide⟩

end Reldex
