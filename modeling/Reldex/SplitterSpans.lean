import Reldex.SqlLexing
import Reldex.SplitterScans

/-! Spans partition the document. Offsets are computed from tokens and from the text,
token lists are resumed from elsewhere; the lexemes of the document tie them together.
A span owns a run of lexemes, and what lies between two spans is trivia and lone `/`
lines. -/
namespace Reldex
open List hiding after span
variable {d : SqlDialect} {text : Text} {done more ls : List Lexeme} {final : Mode} {read : List Token}

theorem layout_eq_append (same : layout pos more = front ++ back) :
    ∃ a b, more = a ++ b ∧ front = layout pos a ∧ back = layout (pos + len (flat a)) b := by
  induction more generalizing pos front with
  | nil =>
    obtain ⟨rfl,rfl⟩ := append_eq_nil_iff.mp same.symm
    exact ⟨[],[],rfl,rfl,rfl⟩
  | cons l more ih =>
    cases front with
    | nil => exact ⟨[],l :: more,rfl,rfl,by simpa using same.symm⟩
    | cons t front =>
      simp only [layout,cons_append,cons.injEq] at same
      obtain ⟨rfl,same⟩ := same
      obtain ⟨a,b,rfl,rfl,rfl⟩ := ih same
      exact ⟨l :: a,b,rfl,rfl,by simp [Nat.add_assoc]⟩

def tokenAt (done : List Lexeme) (l : Lexeme) : Token :=
  ⟨l.kind,len (flat done),len (flat done) + len l.text⟩

def tokensFrom (done more : List Lexeme) : List Token := layout (len (flat done)) more

@[simp] theorem tokensFrom_nil : tokensFrom done [] = [] := rfl

@[simp] theorem tokensFrom_cons : tokensFrom done (l :: more) = tokenAt done l :: tokensFrom (done ++ [l]) more := by
  simp [tokensFrom,layout,tokenAt]

theorem tokensFrom_append : tokensFrom done (a ++ b) = tokensFrom done a ++ tokensFrom (done ++ a) b := by
  simp [tokensFrom,layout_append]

theorem tokensFrom_split (same : tokensFrom done more = front ++ back) :
    ∃ a b, more = a ++ b ∧ front = tokensFrom done a ∧ back = tokensFrom (done ++ a) b := by
  obtain ⟨a,b,rfl,rfl,rfl⟩ := layout_eq_append same
  exact ⟨a,b,rfl,rfl,by simp [tokensFrom]⟩

theorem tokensFrom_split_cons (same : tokensFrom done more = front ++ t :: back) :
    ∃ a l b, more = a ++ l :: b ∧ front = tokensFrom done a ∧ t = tokenAt (done ++ a) l ∧
      back = tokensFrom (done ++ a ++ [l]) b := by
  obtain ⟨a,b,rfl,rfl,tail⟩ := tokensFrom_split same
  cases b with
  | nil => cases tail
  | cons l b =>
    rw [tokensFrom_cons,cons.injEq] at tail
    obtain ⟨rfl,rfl⟩ := tail
    exact ⟨a,l,b,rfl,rfl,rfl,rfl⟩

theorem tokensFrom_opening (blanks : ∀ t ∈ front, isTrivial t.kind = true)
    (here : skipTrivial (front ++ tokensFrom done more) = first :: after) :
    ∃ a l b, more = a ++ l :: b ∧ first = tokenAt (done ++ a) l ∧ after = tokensFrom (done ++ a ++ [l]) b ∧
      ∀ t ∈ tokensFrom done a, isTrivial t.kind = true := by
  obtain ⟨blank,same,trivial⟩ := skipTrivial_split (tokensFrom done more)
  rw [← skipTrivial_blank blanks,here] at same
  obtain ⟨a,l,b,rfl,rfl,rfl,rfl⟩ := tokensFrom_split_cons same
  exact ⟨a,l,b,rfl,rfl,rfl,trivial⟩

section
variable (whole : text = flat (done ++ l :: more))
include whole

theorem Token.text_tokenAt : (tokenAt done l).text text = l.text := by
  subst whole
  simpa [Token.text,tokenAt] using slice_middle (flat done) l.text (flat more)

theorem sliceTo_tokenAt : sliceTo text (tokenAt done l).start = flat done := by
  rw [whole,flat_append]
  exact sliceTo_len _ _

theorem lineAfter_tokenAt : lineAfter text (tokenAt done l).stop = (flat more).takeWhile (· != '\n') := by
  have stop : (tokenAt done l).stop = len (flat done ++ l.text) := by simp [tokenAt]
  subst whole
  rw [lineAfter,stop,flat_append,flat_cons,← append_assoc,sliceFrom_len]

end

theorem mem_dropWhile {p : Char → Bool} (stays : p c = false) (member : c ∈ text) : c ∈ text.dropWhile p := by
  have whole := takeWhile_append_dropWhile (p := p) (l := text)
  rw [← whole,mem_append] at member
  rcases member with dropped | member
  · exact absurd (mem_takeWhile_imp dropped) (by simp [stays])
  · exact member

theorem mem_trimEnd (visible : isWhitespace c = false) (member : c ∈ text) : c ∈ trimEnd text := by
  rw [trimEnd,rdropWhile,mem_reverse]
  exact mem_dropWhile visible (mem_reverse.mpr member)

theorem trim_isEmpty (empty : (trim text).isEmpty = true) : ∀ c ∈ text, isWhitespace c = true := by
  intro c member
  by_contra visible
  have visible : isWhitespace c = false := by simpa using visible
  have inner : c ∈ trim text := mem_trimEnd visible (mem_dropWhile visible member)
  rw [isEmpty_iff.mp empty] at inner
  cases inner

theorem blank_line (chain : Chain .normal more final) (valid : ∀ l ∈ more, l.Valid)
    (blank : ∀ c ∈ (flat more).takeWhile (· != '\n'), isWhitespace c = true) :
    ∃ front later, more = front ++ later ∧ (∀ l ∈ front, l.Trivial) ∧ Chain .normal later final ∧
      len (flat front) = if (flat more).contains '\n' then len ((flat more).takeWhile (· != '\n')) + 1
        else len (flat more) := by
  induction more with
  | nil => exact ⟨[],[],rfl,by simp,chain,by simp⟩
  | cons l more ih =>
    have own := valid l (by simp)
    cases chain with
    | cons entry chain =>
      rcases own.line with isBreak | oneLine
      · have trivial := own.blank entry (by simp [isBreak]; decide)
        rw [trivial.2] at chain
        exact ⟨[l],more,rfl,by simpa using trivial.1,chain,by simp [isBreak]; rfl⟩
      · have whole : (flat (l :: more)).takeWhile (· != '\n') = l.text ++ (flat more).takeWhile (· != '\n') := by
          rw [flat_cons,takeWhile_append_of_pos]
          intro c member
          rw [bne_iff_ne]
          rintro rfl
          exact oneLine member
        rw [whole] at blank
        have trivial := own.blank entry fun c head => by
          simp [isLexerWhitespace,blank c (mem_append_left _ (mem_of_mem_head? head))]
        rw [trivial.2] at chain
        obtain ⟨front,later,rfl,trivials,chain,size⟩ := ih chain (fun k member => valid k (by simp [member]))
          (fun c member => blank c (mem_append_right _ member))
        refine ⟨l :: front,later,rfl,?_,chain,?_⟩
        · simpa [trivial.1] using trivials
        · rw [whole]
          have same : (flat (l :: (front ++ later))).contains '\n' = (flat (front ++ later)).contains '\n' := by
            simp [oneLine]
          rw [same,flat_cons,len_append,size,flat_cons,len_append]
          split
          · omega
          · rw [len_append]

theorem Chain.after (chain : Chain mode (front ++ l :: later) final) : Chain l.leave later final := by
  obtain ⟨middle,_,back⟩ := chain.split
  cases back with
  | cons _ rest => exact rest

theorem slashLine_tail (lexing : Lexing text ls final) (whole : ls = done ++ l :: more)
    (lone : slashLine text (tokenAt done l) = true) :
    ∃ blank later, more = blank ++ later ∧ (∀ k ∈ blank, k.Trivial) ∧ Chain .normal later final ∧
      trailingLineEnd text (tokenAt done l).stop = len (flat (done ++ l :: blank)) := by
  subst whole
  have flat_text := lexing.flat.symm
  have normal : l.leave = .normal := ((lexing.valid l (by simp)).operator (slashLine_operator lone)).2
  have chain := lexing.chain.after
  rw [normal] at chain
  simp only [slashLine,isLoneSlashLine,Bool.and_eq_true] at lone
  have blank := trim_isEmpty lone.2.2
  rw [lineAfter_tokenAt flat_text] at blank
  obtain ⟨front,later,rfl,trivials,rest,size⟩ :=
    blank_line chain (fun k member => lexing.valid k (by simp [member])) blank
  refine ⟨front,later,rfl,trivials,rest,?_⟩
  have stop : (tokenAt done l).stop = len (flat done ++ l.text) := by simp [tokenAt]
  have tail : sliceFrom text (tokenAt done l).stop = flat (front ++ later) := by
    rw [flat_text,stop,flat_append,flat_cons,← append_assoc,sliceFrom_len]
  rw [trailingLineEnd,tail,lineAfter_tokenAt flat_text,stop]
  split at size
  · rename_i broken
    rw [if_pos broken,Nat.add_assoc,← size]
    simp [Nat.add_assoc]
  · rename_i unbroken
    rw [if_neg unbroken,flat_text]
    simp only [flat_append,flat_cons,len_append] at size ⊢
    omega

/-- A span owns the lexemes from its first one through its terminator. -/
structure Owns (span : StatementSpan) (done own : List Lexeme) : Prop where
  nonempty : own ≠ []
  start : span.contentStart = len (flat done)
  full : span.fullEnd = len (flat (done ++ own))
  content : ∃ content terminator, flat own = content ++ terminator ∧ span.contentEnd = len (flat done ++ content)

theorem len_trimEnd_le (text : Text) : len (trimEnd text) ≤ len text := by
  obtain ⟨blank,_,same⟩ := trimEnd_split text
  conv_rhs => rw [same]
  simp

theorem len_trimEnd (visible : isWhitespace c = false) (front back : Text) :
    len (front ++ [c]) ≤ len (trimEnd (front ++ c :: back)) := by
  have whole : trimEnd (front ++ c :: back) = front ++ c :: trimEnd back := by
    rw [trimEnd,rdropWhile,append_cons,reverse_append,dropWhile_append]
    split
    · rename_i empty
      rw [List.isEmpty_iff] at empty
      simp [visible,trimEnd,rdropWhile,empty]
    · simp [trimEnd,rdropWhile]
  simp [whole]

/-- Trimming before a `/` line stops at the start of the statement at the latest. -/
theorem trimmed_content (front own : Text) :
    max (len (trimEnd (front ++ own))) (len front) = len (front ++ trimEnd own) := by
  have split : trimEnd (front ++ own) = if trimEnd own = [] then trimEnd front else front ++ trimEnd own := by
    simp only [trimEnd,List.rdropWhile,List.reverse_append,List.dropWhile_append,List.isEmpty_iff,reverse_eq_nil_iff]
    split <;> simp
  rw [split]
  split
  · rename_i empty
    have shorter := len_trimEnd_le front
    rw [empty,append_nil]
    omega
  · simp

theorem ranToEof_span (lexing : Lexing text ls final) (some : ls ≠ []) :
    ranToEof (tokensFrom [] ls) text kind = ⟨len text,len text,false,.endOfInput,[],kind⟩ := by
  have last : (tokensFrom [] ls).getLast?.map Token.stop = .some (len text) := by
    rw [← dropLast_append_getLast some,tokensFrom_append,getLast?_append]
    simp only [tokensFrom_cons,tokensFrom_nil,getLast?_singleton,tokenAt,nil_append]
    rw [← lexing.flat]
    conv_rhs => rw [← dropLast_append_getLast some]
    simp
  rw [ranToEof,last]
  rfl

theorem tokensFrom_trivial (trivials : ∀ l ∈ more, l.Trivial) : ∀ t ∈ tokensFrom done more, isTrivial t.kind = true := by
  induction more generalizing done with
  | nil => simp
  | cons l more ih =>
    intro t member
    rw [tokensFrom_cons] at member
    rcases mem_cons.mp member with rfl | member
    · rcases trivials l (by simp) with same | same <;> simp [tokenAt,same,isTrivial]
    · exact ih (fun k inside => trivials k (by simp [inside])) t member

/-- A closed scan owns a run of lexemes; the scan resumes there or in the blanks that
end the line of a lone `/`. -/
theorem Closed.owns (lexing : Lexing text ls final) (whole : ls = done ++ more) (some : more ≠ [])
    (position : start.pos = len (flat done))
    (closed : Closed d text (tokensFrom [] ls) (len (flat done)) (tokensFrom done more) read o) :
    ∃ own blank later, more = own ++ later ∧ Owns (o.span start) done own ∧
      (∀ t ∈ blank, isTrivial t.kind = true) ∧ o.next = blank ++ tokensFrom (done ++ own) later := by
  have flat_text := lexing.flat.symm
  generalize cut : tokensFrom done more = cur at closed
  cases closed with
  | eof =>
    have nonempty : ls ≠ [] := by simp [whole,some]
    rw [ranToEof_span lexing nonempty]
    refine ⟨more,[],[],by simp,⟨some,position,?_,flat more,[],by simp,?_⟩,by simp,rfl⟩
    · rw [← whole,flat_text]; rfl
    · rw [← flat_append,← whole,flat_text]; rfl
  | slash body lone =>
    obtain ⟨a,l,b,rfl,rfl,rfl,rfl⟩ := tokensFrom_split_cons cut
    have regroup : done ++ (a ++ l :: b) = (done ++ a) ++ l :: b := by simp
    rw [regroup] at whole
    obtain ⟨blank,later,rfl,trivials,_,stop⟩ := slashLine_tail lexing whole lone
    obtain ⟨trimmed,_,same⟩ := trimEnd_split (flat a)
    have size := trimmed_content (flat done) (flat a)
    have before : sliceTo text (tokenAt (done ++ a) l).start = flat done ++ flat a := by
      rw [sliceTo_tokenAt (whole ▸ flat_text),flat_append]
    refine ⟨a ++ l :: blank,tokensFrom (done ++ a ++ [l]) blank,later,by simp,
      ⟨by simp,position,?_,trimEnd (flat a),trimmed ++ l.text ++ flat blank,?_,?_⟩,tokensFrom_trivial trivials,?_⟩
    · simpa [ScanOutcome.span,endAtSlashLine] using stop
    · conv_lhs => rw [flat_append,same]
      simp
    · rw [← size,← before]; rfl
    · simp [endAtSlashLine,tokensFrom_append]
  | terminator body found =>
    obtain ⟨a,l,b,rfl,rfl,rfl,rfl⟩ := tokensFrom_split_cons cut
    refine ⟨a ++ [l],[],b,by simp,⟨by simp,position,?_,flat a,l.text,by simp,?_⟩,by simp,by simp⟩
    · simp [ScanOutcome.span,tokenAt]; omega
    · simp [ScanOutcome.span,tokenAt]
  | @finished semi next kind body found =>
    obtain ⟨a,l,b,rfl,rfl,rfl,rfl⟩ := tokensFrom_split_cons cut
    rcases finishWithMaybeSlash_cases d text (tokenAt (done ++ a) l).start (tokenAt (done ++ a) l).stop
      (tokensFrom (done ++ a ++ [l]) b) kind with same | ⟨between,slash,rest,cut,_,lone,same⟩
    · rw [same]
      refine ⟨a ++ [l],[],b,by simp,⟨by simp,position,?_,flat a,l.text,by simp,?_⟩,by simp,by simp⟩
      · simp [ScanOutcome.span,tokenAt]; omega
      · simp [ScanOutcome.span,tokenAt]
    · rw [same]
      obtain ⟨m,k,c,rfl,rfl,rfl,rfl⟩ := tokensFrom_split_cons cut
      have regroup : done ++ (a ++ l :: (m ++ k :: c)) = (done ++ a ++ [l] ++ m) ++ k :: c := by simp
      rw [regroup] at whole
      obtain ⟨blank,later,rfl,trivials,_,stop⟩ := slashLine_tail lexing whole lone
      refine ⟨a ++ l :: m ++ k :: blank,tokensFrom (done ++ a ++ [l] ++ m ++ [k]) blank,later,by simp,
        ⟨by simp,position,?_,flat a,l.text ++ flat m ++ k.text ++ flat blank,?_,?_⟩,
        tokensFrom_trivial trivials,?_⟩
      · simpa [ScanOutcome.span] using stop
      · simp
      · simp [ScanOutcome.span,tokenAt]
      · simp [tokensFrom_append]

def idleToken (text : Text) (t : Token) : Prop := isTrivial t.kind = true ∨ slashLine text t = true

inductive Partition (text : Text) : List Lexeme → List Lexeme → List StatementSpan → Prop where
  | rest {done gap : List Lexeme} : (∀ t ∈ tokensFrom done gap, idleToken text t) → Partition text done gap []
  | span {done gap own later : List Lexeme} : (∀ t ∈ tokensFrom done gap, idleToken text t) →
      Owns span (done ++ gap) own → Partition text (done ++ gap ++ own) later spans →
      Partition text done (gap ++ own ++ later) (span :: spans)

theorem Partition.widen (idle : ∀ t ∈ tokensFrom done front, idleToken text t)
    (partition : Partition text (done ++ front) more spans) : Partition text done (front ++ more) spans := by
  have both {gap : List Lexeme} (trivial : ∀ t ∈ tokensFrom (done ++ front) gap, idleToken text t) :
      ∀ t ∈ tokensFrom done (front ++ gap), idleToken text t := by
    intro t member
    rw [tokensFrom_append,mem_append] at member
    exact member.elim (idle t) (trivial t)
  cases partition with
  | rest trivial => exact .rest (both trivial)
  | span trivial owns later =>
    rw [append_assoc done] at owns later
    rw [← append_assoc,← append_assoc]
    exact .span (both trivial) owns later

section

def lastLine (text : Text) : Text := text.rtakeWhile (· != '\n')
def firstLine (text : Text) : Text := text.takeWhile (· != '\n')

/-- A line and a column that the release build counts up to the end of `front`. -/
structure PositionCursor.Marks (cursor : PositionCursor) (front : Text) : Prop where
  line : cursor.line = wrapU32 (1 + front.count '\n')
  column : cursor.column = wrapU32 (1 + (lastLine front).length)

theorem lastLine_concat (front : Text) (c : Char) :
    lastLine (front ++ [c]) = if c == '\n' then [] else lastLine front ++ [c] := by
  rw [lastLine,lastLine,rtakeWhile_concat]
  by_cases newline : c = '\n' <;> simp [newline]

variable {cursor : PositionCursor} (here : cursor.Marks front)
include here

theorem PositionCursor.Marks.step (c : Char) : (cursor.step c).Marks (front ++ [c]) := by
  obtain ⟨line,column⟩ := here
  rw [PositionCursor.step]
  split
  · rename_i newline
    refine ⟨?_,?_⟩
    · simp only [line,wrapU32,count_append,beq_iff_eq.mp newline,count_singleton_self]
      omega
    · rw [lastLine_concat,if_pos newline]
      rfl
  · rename_i other
    refine ⟨?_,?_⟩
    · rw [count_append,count_singleton,if_neg other]
      exact line
    · simp only [column,wrapU32,lastLine_concat,if_neg other,length_append,length_singleton]
      omega

theorem PositionCursor.Marks.walk (text : Text) : (text.foldl PositionCursor.step cursor).Marks (front ++ text) := by
  induction text generalizing cursor front with
  | nil => simpa using here
  | cons c text ih =>
    rw [foldl_cons,append_cons]
    exact ih (here.step c)

theorem PositionCursor.Marks.advanceTo (pos : cursor.pos = len front) (whole : text = front ++ between ++ later) :
    (cursor.advanceTo text (len (front ++ between))).Marks (front ++ between) := by
  have walked := here.walk between
  have sliced : slice text cursor.pos (len (front ++ between)) = between := by rw [pos,whole,slice_middle]
  rw [PositionCursor.advanceTo,sliced]
  exact ⟨walked.line,walked.column⟩

omit here

/-- The cursor of the loop stands at the end of `front`. -/
structure PositionCursor.At (cursor : PositionCursor) (front : Text) : Prop extends cursor.Marks front where
  pos : cursor.pos = len front

theorem PositionCursor.At.advanceTo (here : cursor.At front) (whole : text = front ++ between ++ later) :
    (cursor.advanceTo text (len (front ++ between))).At (front ++ between) :=
  ⟨here.toMarks.advanceTo here.pos whole,rfl⟩

end

/-- The loop of `split_statements` over the lexemes of a text. -/
inductive Walks (d : SqlDialect) (text : Text) (ls : List Lexeme) :
    List Lexeme → List Lexeme → List StatementSpan → Prop where
  | stop {done more : List Lexeme} : (∀ t ∈ tokensFrom done more, isTrivial t.kind = true) → Walks d text ls done more []
  | idle {done a : List Lexeme} : (∀ t ∈ tokensFrom done a, isTrivial t.kind = true) → isTrivial l.kind = false →
      idleSlash d text (tokenAt (done ++ a) l) = true → Walks d text ls (done ++ (a ++ [l])) b spans →
      Walks d text ls done (a ++ l :: b) spans
  | statement {done a : List Lexeme} {start : PositionCursor} : ls = (done ++ a) ++ l :: b →
      (∀ t ∈ tokensFrom done a, isTrivial t.kind = true) → isTrivial l.kind = false → idleSlash d text (tokenAt (done ++ a) l) = false → start.At (flat (done ++ a)) →
      scanStatement d text (tokensFrom [] ls) (tokenAt (done ++ a) l).start (tokensFrom (done ++ a) (l :: b)) = o →
      l :: b = own ++ later → Owns (o.span start) (done ++ a) own → (∀ t ∈ blank, isTrivial t.kind = true) →
      o.next = blank ++ tokensFrom (done ++ a ++ own) later → Walks d text ls (done ++ a ++ own) later spans →
      Walks d text ls done (a ++ l :: b) (o.span start :: spans)

theorem walks_of_splits (lexing : Lexing text ls final)
    (splits : Splits d text (tokensFrom [] ls) rest cursor spans) (whole : ls = done ++ more)
    (blanks : ∀ t ∈ front, isTrivial t.kind = true) (cut : rest = front ++ tokensFrom done more)
    (position : ∃ earlier between, flat done = earlier ++ between ∧ cursor.At earlier) : Walks d text ls done more spans := by
  induction splits generalizing done more front with
  | @stop rest cursor none =>
    obtain ⟨blank,same,trivial⟩ := skipTrivial_split (tokensFrom done more)
    rw [← skipTrivial_blank blanks,← cut,none,append_nil] at same
    exact .stop fun t member => trivial t (same ▸ member)
  | @idle rest first after cursor spans here lone _ ih =>
    have visible := skipTrivial_visible here
    obtain ⟨a,l,b,rfl,rfl,rfl,trivial⟩ := tokensFrom_opening blanks (cut ▸ here)
    obtain ⟨earlier,between,split,here'⟩ := position
    exact .idle trivial visible lone (@ih (done ++ (a ++ [l])) b [] (by simp [whole]) (by simp) (by simp)
      ⟨earlier,between ++ flat (a ++ [l]),by rw [flat_append,split,append_assoc],here'⟩)
  | @statement rest first after o start spans cursor here real scanned moved _ ih =>
    have visible := skipTrivial_visible here
    obtain ⟨a,l,b,rfl,rfl,rfl,trivial⟩ := tokensFrom_opening blanks (cut ▸ here)
    have whole : ls = (done ++ a) ++ l :: b := by simp [whole]
    have flat_text := lexing.flat.symm
    obtain ⟨earlier,between,split,here'⟩ := position
    have position : start.At (flat (done ++ a)) := by
      have tiled : text = earlier ++ (between ++ flat a) ++ flat (l :: b) := by
        rw [flat_text,whole,flat_append,flat_append,split]
        simp
      have at' := here'.advanceTo tiled
      rw [← append_assoc,← split,← flat_append] at at'
      rw [← moved]
      exact at'
    rw [← tokensFrom_cons] at scanned
    obtain ⟨read,closed,_⟩ := scanStatement_closed d text (tokensFrom [] ls) (tokenAt (done ++ a) l).start
      (tokensFrom (done ++ a) (l :: b))
    rw [scanned] at closed
    obtain ⟨own,blank,later,cut,owns,blanks,next⟩ := closed.owns lexing whole (by simp) position.pos
    have after : (start.advanceTo text o.fullEnd).At (flat (done ++ a ++ own)) := by
      have tiled : text = flat (done ++ a) ++ flat own ++ flat later := by
        rw [flat_text,whole,cut]
        simp
      have moved := position.advanceTo tiled
      rw [← flat_append] at moved
      have stop : o.fullEnd = len (flat (done ++ a ++ own)) := owns.full
      rw [stop]
      exact moved
    exact .statement whole trivial visible real position scanned cut owns blanks next
      (ih (by simp [whole,cut]) blanks next ⟨_,[],(append_nil _).symm,after⟩)

theorem splitTokens_walks (d : SqlDialect) (lexing : Lexing text ls final) :
    Walks d text ls [] ls (splitTokens d text (tokensFrom [] ls)) :=
  walks_of_splits lexing (splitTokens_splits _) (nil_append ls).symm (forall_mem_nil _) rfl ⟨[],[],rfl,⟨rfl,rfl⟩,rfl⟩

theorem Walks.partition (walks : Walks d text ls done more spans) : Partition text done more spans := by
  induction walks with
  | stop trivial => exact .rest fun t member => .inl (trivial t member)
  | idle trivial _ lone _ later =>
    have lone := ((Bool.and_eq_true ..).mp lone).2
    rw [append_cons]
    refine later.widen fun t member => ?_
    rw [tokensFrom_append,mem_append] at member
    rcases member with member | member
    · exact .inl (trivial t member)
    · rw [tokensFrom_cons,tokensFrom_nil,mem_singleton] at member
      exact .inr (member ▸ lone)
  | statement _ trivial _ _ _ _ cut owns _ _ _ later =>
    rw [cut,← append_assoc]
    exact .span (fun t member => .inl (trivial t member)) owns later

/-- Every offset of the span is a boundary of the text, in order, so its two slices exist. -/
structure SpanSound (text : Text) (span : StatementSpan) : Prop where
  contentOrder : span.contentStart ≤ span.contentEnd
  fullOrder : span.contentEnd ≤ span.fullEnd
  inside : span.fullEnd ≤ len text
  startBoundary : isCharBoundary text span.contentStart = true
  endBoundary : isCharBoundary text span.contentEnd = true
  fullBoundary : isCharBoundary text span.fullEnd = true
  content : (span.content text).isSome = true
  full : (span.full text).isSome = true

def gaps (text : Text) : Nat → List StatementSpan → List (Nat × Nat)
  | pos, [] => [(pos,len text)]
  | pos, span :: spans => (pos,span.contentStart) :: gaps text span.fullEnd spans

def reassemble (text : Text) : Nat → List StatementSpan → Option Text
  | pos, [] => checkedSlice text pos (len text)
  | pos, span :: spans => do
    let gap ← checkedSlice text pos span.contentStart
    let full ← span.full text
    let rest ← reassemble text span.fullEnd spans
    some (gap ++ full ++ rest)

section
variable (owns : Owns span done own) (whole : text = flat (done ++ own ++ more))
include owns whole

theorem Owns.full_eq : span.full text = some (flat own) := by
  rw [StatementSpan.full,owns.start,owns.full,whole,flat_append,flat_append]
  exact checkedSlice_middle _ _ _

theorem Owns.sound : SpanSound text span := by
  obtain ⟨content,terminator,same,stop⟩ := owns.content
  have split : text = flat done ++ content ++ (terminator ++ flat more) := by simp [whole,same]
  have full : text = flat (done ++ own) ++ flat more := by simp [whole]
  refine ⟨?_,?_,?_,?_,?_,?_,?_,?_⟩
  · rw [owns.start,stop,len_append]
    omega
  · rw [owns.full,stop,flat_append,same,len_append,len_append,len_append]
    omega
  · rw [owns.full,full,len_append]
    omega
  · rw [isCharBoundary_iff]
    exact ⟨flat done,content ++ (terminator ++ flat more),by simp [split],owns.start.symm⟩
  · rw [isCharBoundary_iff]
    exact ⟨flat done ++ content,terminator ++ flat more,split,stop.symm⟩
  · rw [isCharBoundary_iff]
    exact ⟨flat (done ++ own),flat more,full,owns.full.symm⟩
  · rw [StatementSpan.content,owns.start,stop,split,checkedSlice_middle]
    rfl
  · rw [owns.full_eq whole]
    rfl

end

section
variable (partition : Partition text done more spans)
include partition

theorem Partition.sound (whole : text = flat (done ++ more)) : ∀ span ∈ spans, SpanSound text span := by
  induction partition with
  | rest => simp
  | @span _ _ done gap own later idle owns _ ih =>
    intro found member
    rcases mem_cons.mp member with rfl | member
    · have here : text = flat (done ++ gap ++ own ++ later) := by simp [whole]
      exact owns.sound here
    · exact ih (by simp [whole]) found member

theorem Partition.after : ∀ span ∈ spans, len (flat done) ≤ span.contentStart := by
  induction partition with
  | rest => simp
  | @span _ _ done gap own later idle owns _ ih =>
    intro found member
    rcases mem_cons.mp member with rfl | member
    · rw [owns.start,flat_append,len_append]
      omega
    · have := ih found member
      simp only [flat_append,len_append] at this
      omega

theorem Partition.ordered : spans.Pairwise fun a b => a.fullEnd ≤ b.contentStart := by
  induction partition with
  | rest => exact .nil
  | span _ owns later ih => exact .cons (fun b member => owns.full ▸ later.after b member) ih

end

theorem tokensFrom_range (member : t ∈ tokensFrom done more) :
    len (flat done) ≤ t.start ∧ t.start ≤ t.stop ∧ t.stop ≤ len (flat (done ++ more)) := by
  induction more generalizing done with
  | nil => simp at member
  | cons l more ih =>
    rw [tokensFrom_cons] at member
    rcases mem_cons.mp member with rfl | member
    · simp only [tokenAt,flat_append,flat_cons,len_append]
      omega
    · have := ih member
      simp only [flat_append,flat_cons,flat_nil,len_append,len_nil] at this ⊢
      omega

theorem mem_gap (member : t ∈ tokensFrom [] (done ++ gap ++ more)) (after : len (flat done) < t.stop)
    (before : t.start < len (flat (done ++ gap))) : t ∈ tokensFrom done gap := by
  rw [tokensFrom_append,tokensFrom_append,mem_append,mem_append,nil_append] at member
  rcases member with (member | member) | member
  · have := tokensFrom_range member
    simp only [nil_append] at this
    omega
  · simpa using member
  · have := tokensFrom_range member
    simp only [nil_append] at this
    omega

section
variable (partition : Partition text done more spans) (whole : text = flat (done ++ more))
include partition whole

theorem Partition.gaps_idle :
    ∀ gap ∈ gaps text (len (flat done)) spans, gap.1 ≤ gap.2 ∧ ∀ t ∈ tokensFrom [] (done ++ more),
      gap.1 < t.stop → t.start < gap.2 → gap.1 ≤ t.start ∧ t.stop ≤ gap.2 ∧ idleToken text t := by
  induction partition with
  | @rest done gap idle =>
    intro found member
    cases mem_singleton.mp member
    refine ⟨by simp [whole],fun t member after before => ?_⟩
    rw [← append_nil (done ++ gap)] at member
    have inside : t ∈ tokensFrom done gap := mem_gap member after (whole ▸ before)
    have range := tokensFrom_range inside
    exact ⟨range.1,whole ▸ range.2.2,idle t inside⟩
  | @span span spans done gap own later idle owns _ ih =>
    intro found member
    rcases mem_cons.mp member with rfl | member
    · refine ⟨by simp [owns.start],fun t member after before => ?_⟩
      rw [owns.start] at before ⊢
      rw [append_assoc gap,← append_assoc] at member
      have inside : t ∈ tokensFrom done gap := mem_gap member after before
      have range := tokensFrom_range inside
      exact ⟨range.1,range.2.2,idle t inside⟩
    · rw [owns.full] at member
      simpa using ih (by simp [whole]) found member

theorem Partition.reassembled : reassemble text (len (flat done)) spans = some (flat more) := by
  induction partition with
  | @rest done gap idle =>
    have := checkedSlice_middle (flat done) (flat gap) []
    simpa [reassemble,whole] using this
  | @span span spans done gap own later idle owns _ ih =>
    have first : checkedSlice text (len (flat done)) span.contentStart = some (flat gap) := by
      have := checkedSlice_middle (flat done) (flat gap) (flat (own ++ later))
      rw [owns.start]
      simpa [whole] using this
    have here : text = flat (done ++ gap ++ own ++ later) := by simp [whole]
    have rest := ih here
    rw [← owns.full] at rest
    simp [reassemble,first,owns.full_eq here,rest]

end

theorem splitTokens_partition (lexing : Lexing text ls final) :
    Partition text [] ls (splitTokens d text (tokensFrom [] ls)) :=
  (splitTokens_walks d lexing).partition

/-- Spans and gaps partition the script. Every gap consists of whole tokens, each of them
trivia or a lone `/` line. -/
theorem spans_partition_script (delimiters : d.NonEmptyBlockDelimiters) (text : Text) :
    ∃ tokens spans, tokenize u d text = some tokens ∧ splitStatements u d text = some spans ∧
      (∀ span ∈ spans, SpanSound text span) ∧
      (spans.Pairwise fun a b => a.fullEnd ≤ b.contentStart) ∧
      (∀ gap ∈ gaps text 0 spans, gap.1 ≤ gap.2 ∧ ∀ t ∈ tokens, gap.1 < t.stop → t.start < gap.2 →
        gap.1 ≤ t.start ∧ t.stop ≤ gap.2 ∧ (isTrivial t.kind = true ∨ slashLine text t = true)) ∧
      reassemble text 0 spans = some text := by
  obtain ⟨ls,lexed⟩ := lexemes_total (u := u) delimiters text
  obtain ⟨final,lexing⟩ := lexemes_lexing lexed
  have tokenized : tokenize u d text = some (tokensFrom [] ls) := by simp [tokenize,lexed,tokensFrom]
  have partition : Partition text [] ls (splitTokens d text (tokensFrom [] ls)) := splitTokens_partition lexing
  have whole : text = flat ([] ++ ls) := lexing.flat.symm
  refine ⟨_,_,tokenized,by rw [splitStatements,tokenized]; rfl,partition.sound whole,partition.ordered,
    partition.gaps_idle whole,?_⟩
  have all := partition.reassembled whole
  rwa [lexing.flat] at all

theorem spans_partition_script_multibyte : (oracleLike []).NonEmptyBlockDelimiters ∧
    ∃ spans, splitStatements asciiTables (oracleLike []) "-- é\nSELECT 'é';\n/\n".toList = some spans ∧
      reassemble "-- é\nSELECT 'é';\n/\n".toList 0 spans = some "-- é\nSELECT 'é';\n/\n".toList := by
  obtain ⟨_,spans,_,split,_,_,_,all⟩ := spans_partition_script (u := asciiTables)
    (oracleLike_delimiters []) "-- é\nSELECT 'é';\n/\n".toList
  exact ⟨oracleLike_delimiters [],spans,split,all⟩

end Reldex
