import Reldex.SplitterDocuments

/-! Where statements are. The line and column of a span are carried along by a cursor that only
moves forward; the statement under an offset is looked up in the spans. -/
namespace Reldex
open Option
open List hiding span
variable {u : UnicodeTables} {d : SqlDialect} {text : Text} {done own more ls : List Lexeme} {final : Mode}

/-- A lexeme that reads nothing is a comment, closed at once. -/
def Lexeme.Filled (l : Lexeme) : Prop := l.text = [] → l.Trivial ∧ l.leave = .normal

theorem consumed_eq_nil (tail : rest <:+ whole) (empty : consumed whole rest = []) : rest = whole := by
  rw [← consumed_append tail,empty,nil_append]

theorem not_suffix_tail (tail : (c :: cs : Text) <:+ cs) : False := by
  have longer := tail.length_le
  rw [length_cons] at longer
  omega

theorem turnLexeme_filled (mode : Mode) (atLineStart : Bool) (c : Char) (cs : Text) :
    (turnLexeme u d mode atLineStart (c :: cs)).Filled := by
  intro empty
  cases mode with
  | normal => exact turnLexeme_blank c cs atLineStart (by simp [empty])
  | blockComment =>
    have unread : (scanBlockComment (blockCommentClose d) (c :: cs)).2 = c :: cs :=
      consumed_eq_nil (scanBlockComment_suffix _ _) empty
    refine ⟨.inr rfl,?_⟩
    by_cases closes : startsWith (c :: cs) (blockCommentClose d) = true
    · simp [turnLexeme,nextToken,resume,scanBlockComment,closes]
    · rw [scanBlockComment,if_neg closes] at unread
      exact (not_suffix_tail (unread ▸ scanBlockComment_suffix _ cs)).elim
  | singleQuoted =>
    exact (not_suffix_tail (consumed_eq_nil (scanSimpleQuoted_suffix _ _) empty ▸ scanSimpleQuoted_tail '\'' c cs)).elim
  | doubleQuoted =>
    exact (not_suffix_tail (consumed_eq_nil (scanSimpleQuoted_suffix _ _) empty ▸ scanSimpleQuoted_tail '"' c cs)).elim
  | qString closing =>
    exact (not_suffix_tail (consumed_eq_nil (scanQString_suffix _ _) empty ▸ scanQString_tail closing c cs)).elim

theorem lexemes_filled (lexed : lexemes u d text = some ls) (member : l ∈ ls) (visible : isTrivial l.kind = false) :
    l.text ≠ [] := by
  obtain ⟨⟨raw,final⟩,lines,same⟩ := map_eq_some_iff.mp lexed
  have filled := lexLines_all Lexeme.Filled turnLexeme_filled (fun _ empty => nomatch empty) lines
  have chain := (lexLines_raw (splitOn_oneLine text) lines).chain
  intro empty
  have shown : ¬l.Trivial := by
    rintro (blank | comment)
    · simp [isTrivial,blank] at visible
    · simp [isTrivial,comment] at visible
  dsimp only at same
  split at same
  · subst same
    exact shown (filled l member empty).1
  · rename_i stillOpen
    subst same
    by_cases none : raw = []
    · simp [none,markOpen] at member
    · rw [markOpen_eq none] at member
      rcases mem_append.mp member with front | last
      · exact shown (filled l (dropLast_subset _ front) empty).1
      · obtain rfl := mem_singleton.mp last
        have leave := (filled _ (getLast_mem none) empty).2
        rw [chain.last none] at leave
        simp [leave] at stillOpen

theorem Closed.ended {cur read : List Token} (lexing : Lexing text ls final) (present : ls ≠ [])
    (closed : Closed d text (tokensFrom [] ls) start cur read o) (inside : ∀ t ∈ cur, t ∈ tokensFrom [] ls) :
    o.endedBy = .slashLine ∨ o.fullEnd = len text ∨
      ∃ t ∈ tokensFrom [] ls, isTerminator d text t = true ∧ o.fullEnd = t.stop := by
  cases closed with
  | eof => exact .inr (.inl (by rw [ranToEof_span lexing present]))
  | slash => exact .inl rfl
  | terminator body found => exact .inr (.inr ⟨_,inside _ (by simp),found,rfl⟩)
  | @finished semi next kind body found =>
    rcases finishWithMaybeSlash_cases d text semi.start semi.stop next kind with same | ⟨_,_,_,_,_,_,same⟩
    · rw [same]
      exact .inr (.inr ⟨_,inside _ (by simp),found,rfl⟩)
    · rw [same]
      exact .inl rfl

structure Placed (d : SqlDialect) (text : Text) (ls done own : List Lexeme) (span : StatementSpan) : Prop where
  tail : ∃ more, ls = done ++ own ++ more
  owns : Owns span done own
  starts : Visible own
  marks : PositionCursor.Marks ⟨span.contentStart,span.startLine,span.startColumn⟩ (flat done)
  ended : span.endedBy = .slashLine ∨ span.fullEnd = len text ∨
    ∃ t ∈ tokensFrom [] ls, isTerminator d text t = true ∧ span.fullEnd = t.stop

theorem Walks.placed (lexing : Lexing text ls final) (walks : Walks d text ls done more spans) :
    ∀ span ∈ spans, ∃ done own, Placed d text ls done own span := by
  induction walks with
  | stop => simp
  | idle _ _ _ _ ih => exact ih
  | @statement l b o own later blank spans done a start whole _ visible _ position scanned cut owns _ _ _ ih =>
    refine forall_mem_cons.mpr ⟨⟨done ++ a,own,⟨later,by simp [whole,cut]⟩,owns,?_,?_,?_⟩,ih⟩
    · intro k head
      obtain ⟨more,rfl⟩ := head?_eq_some_iff.mp head
      obtain rfl := (cons.inj cut).1
      exact visible
    · exact ⟨position.line,position.column⟩
    · obtain ⟨read,closed,_⟩ := scanStatement_closed d text (tokensFrom [] ls) (tokenAt (done ++ a) l).start
        (tokensFrom (done ++ a) (l :: b))
      rw [scanned] at closed
      refine closed.ended lexing (by simp [whole]) fun t member => ?_
      rw [whole,tokensFrom_append]
      exact mem_append_right _ member

theorem splitStatements_placed (split : splitStatements u d text = some spans) :
    ∃ ls final, lexemes u d text = some ls ∧ Lexing text ls final ∧ spans = splitTokens d text (tokensFrom [] ls) ∧
      ∀ span ∈ spans, ∃ done own, Placed d text ls done own span := by
  obtain ⟨tokens,tokenized,rfl⟩ := map_eq_some_iff.mp split
  obtain ⟨ls,lexed,rfl⟩ := map_eq_some_iff.mp tokenized
  obtain ⟨final,lexing⟩ := lexemes_lexing lexed
  refine ⟨ls,final,lexed,lexing,rfl,?_⟩
  exact (splitTokens_walks d lexing).placed lexing

/-- `advance_to` with its panics: the assertion of the debug build, and the slice. -/
def PositionCursor.advanceChecked (text : Text) (cursor : PositionCursor) (target : Nat) : Option PositionCursor :=
  if cursor.pos ≤ target then
    (checkedSlice text cursor.pos target).map fun passed => { passed.foldl step cursor with pos := target }
  else none

def moves (spans : List StatementSpan) : List Nat := spans.flatMap fun span => [span.contentStart,span.fullEnd]

theorem advanceChecked_some {cursor : PositionCursor} (forward : cursor.pos ≤ target)
    (here : isCharBoundary text cursor.pos = true) (there : isCharBoundary text target = true) :
    ∃ moved, cursor.advanceChecked text target = some moved ∧ moved.pos = target := by
  have passed : checkedSlice text cursor.pos target = some (slice text cursor.pos target) :=
    if_pos ⟨forward,here,there⟩
  exact ⟨_,by rw [PositionCursor.advanceChecked,if_pos forward,passed]; rfl,rfl⟩

theorem moves_checked {spans : List StatementSpan} (cursor : PositionCursor)
    (here : isCharBoundary text cursor.pos = true) (sound : ∀ span ∈ spans, SpanSound text span)
    (ordered : spans.Pairwise fun a b => a.fullEnd ≤ b.contentStart)
    (after : ∀ span ∈ spans, cursor.pos ≤ span.contentStart) :
    ((moves spans).foldlM (PositionCursor.advanceChecked text) cursor).isSome = true := by
  induction spans generalizing cursor with
  | nil => rfl
  | cons span spans ih =>
    have own := sound span (by simp)
    obtain ⟨first,moved,pos⟩ := advanceChecked_some (after span (by simp)) here own.startBoundary
    have forward : first.pos ≤ span.fullEnd := by
      have := own.contentOrder
      have := own.fullOrder
      omega
    obtain ⟨second,moved',pos'⟩ := advanceChecked_some forward (pos ▸ own.startBoundary) own.fullBoundary
    have rest := ih second (pos' ▸ own.fullBoundary) (fun s member => sound s (by simp [member]))
      (pairwise_cons.mp ordered).2 (fun s member => pos' ▸ (pairwise_cons.mp ordered).1 s member)
    simpa [moves,moved,moved'] using rest

theorem Placed.position (lexing : Lexing text ls final) (placed : Placed d text ls done own span) :
    span.startLine = wrapU32 (1 + (sliceTo text span.contentStart).count '\n') ∧
    span.startColumn = wrapU32 (1 + (lineBefore text span.contentStart).length) := by
  obtain ⟨⟨more,tail⟩,owns,_,marks,_⟩ := placed
  have front : sliceTo text span.contentStart = flat done := by
    rw [owns.start,← lexing.flat,tail,append_assoc,flat_append,sliceTo_len]
  rw [lineBefore,front]
  exact ⟨marks.line,marks.column⟩

/-- The line and the column are those of the text as long as they fit `u32`, and the cursor
only moves forward, from boundary to boundary. -/
theorem positions_exact_iff (split : splitStatements u d text = some spans) :
    (∀ span ∈ spans,
      (span.startLine = 1 + (sliceTo text span.contentStart).count '\n' ↔
        1 + (sliceTo text span.contentStart).count '\n' < 2^32) ∧
      (span.startColumn = 1 + (lineBefore text span.contentStart).length ↔
        1 + (lineBefore text span.contentStart).length < 2^32)) ∧
    ((moves spans).foldlM (PositionCursor.advanceChecked text) ⟨0,1,1⟩).isSome = true := by
  obtain ⟨ls,final,_,lexing,rfl,placed⟩ := splitStatements_placed split
  have partition : Partition text [] ls (splitTokens d text (tokensFrom [] ls)) := splitTokens_partition lexing
  have start : isCharBoundary text 0 = true := (isCharBoundary_iff text 0).mpr ⟨[],text,rfl,rfl⟩
  refine ⟨?_,moves_checked _ start (partition.sound lexing.flat.symm) partition.ordered (by simp)⟩
  intro span member
  obtain ⟨done,own,placed⟩ := placed span member
  obtain ⟨line,column⟩ := placed.position lexing
  rw [line,column]
  simp only [wrapU32]
  constructor <;> omega

theorem second_statement_position : splitStatements asciiTables (oracleLike []) "SELECT 'é';\n  COMMIT;".toList =
      some [⟨0,11,12,1,1,.plain,.terminator,true⟩,⟨15,21,22,2,3,.plain,.terminator,true⟩] ∧
    (moves [⟨0,11,12,1,1,.plain,.terminator,true⟩,⟨15,21,22,2,3,.plain,.terminator,true⟩]).foldlM
      (PositionCursor.advanceChecked "SELECT 'é';\n  COMMIT;".toList) ⟨0,1,1⟩ ≠ none := by
  have split : splitStatements asciiTables (oracleLike []) "SELECT 'é';\n  COMMIT;".toList =
      some [⟨0,11,12,1,1,.plain,.terminator,true⟩,⟨15,21,22,2,3,.plain,.terminator,true⟩] := by decide
  exact ⟨split,isSome_iff_ne_none.mp (positions_exact_iff split).2⟩

def farWord (lines : Nat) : Text := List.replicate lines '\n' ++ ['x']

def farLexemes (lines : Nat) : List Lexeme :=
  List.replicate lines (lineBreak .normal) ++ [⟨.identifier,['x'],.normal,.normal⟩]

theorem farWord_lexemes (lines : Nat) : lexemes asciiTables (oracleLike []) (farWord lines) = some (farLexemes lines) := by
  have cut : (farWord lines).splitOn '\n' = replicate lines [] ++ [['x']] := by
    induction lines with
    | zero => rfl
    | succ lines ih =>
      rw [farWord,replicate_succ,cons_append,splitOn_cons_eq_if_modifyHead,if_pos (by rfl)]
      exact congrArg ([] :: ·) ih
  have lexed : lexLines asciiTables (oracleLike []) .normal (replicate lines [] ++ [['x']]) =
      some (farLexemes lines,.normal) := by
    clear cut
    induction lines with
    | zero => decide
    | succ lines ih =>
      have present : replicate lines [] ++ [['x']] ≠ [] := by simp
      obtain ⟨next,rest,same⟩ := exists_cons_of_ne_nil present
      rw [replicate_succ,cons_append,same,lexLines,← same,farLexemes,replicate_succ,cons_append]
      have blank : lexBlock asciiTables (oracleLike []) .normal [] = some ([],.normal) := rfl
      rw [blank,bind_some]
      simp only [ih]
      rfl
  rw [lexemes,cut,lexed]
  rfl

theorem flat_lineBreaks (lines : Nat) :
    flat (replicate lines (lineBreak .normal)) = replicate lines '\n' := by
  induction lines with
  | zero => rfl
  | succ lines ih =>
    rw [replicate_succ,flat_cons,ih]
    rfl

theorem farWord_span (lines : Nat) : ∃ spans span,
    splitStatements asciiTables (oracleLike []) (farWord lines) = some spans ∧ span ∈ spans ∧
    (sliceTo (farWord lines) span.contentStart).count '\n' = lines ∧ span.startLine = wrapU32 (1 + lines) := by
  have tokenized : tokenize asciiTables (oracleLike []) (farWord lines) = some (tokensFrom [] (farLexemes lines)) := by
    rw [tokenize,farWord_lexemes]
    rfl
  have split : splitStatements asciiTables (oracleLike []) (farWord lines) =
      some (splitTokens (oracleLike []) (farWord lines) (tokensFrom [] (farLexemes lines))) := by
    rw [splitStatements,tokenized]
    rfl
  have first : skipTrivial (tokensFrom [] (farLexemes lines)) =
      [tokenAt (replicate lines (lineBreak .normal)) ⟨.identifier,['x'],.normal,.normal⟩] := by
    have breaks : ∀ l ∈ replicate lines (lineBreak .normal), l.Trivial := by
      intro l member
      rw [eq_of_mem_replicate member]
      exact .inl rfl
    rw [farLexemes,tokensFrom_append,skipTrivial,dropWhile_append_of_pos (tokensFrom_trivial breaks)]
    rfl
  have starts : ∃ span ∈ splitTokens (oracleLike []) (farWord lines) (tokensFrom [] (farLexemes lines)),
      span.contentStart = len (replicate lines '\n') := by
    have splits : Splits (oracleLike []) (farWord lines) _ _ _ _ := splitTokens_splits (tokensFrom [] (farLexemes lines))
    generalize splitTokens (oracleLike []) (farWord lines) (tokensFrom [] (farLexemes lines)) = spans at splits ⊢
    cases splits with
    | stop none => cases first.symm.trans none
    | idle here lone _ =>
      obtain ⟨rfl,_⟩ := cons.inj (first.symm.trans here)
      simp [idleSlash,slashLine,tokenAt] at lone
    | statement here _ _ moved _ =>
      obtain ⟨rfl,_⟩ := cons.inj (first.symm.trans here)
      refine ⟨_,mem_cons_self,?_⟩
      rw [← flat_lineBreaks,← moved]
      rfl
  obtain ⟨span,member,start⟩ := starts
  obtain ⟨ls,final,_,lexing,same,placed⟩ := splitStatements_placed split
  obtain ⟨done,own,placed⟩ := placed span member
  have front : (sliceTo (farWord lines) span.contentStart).count '\n' = lines := by
    rw [start,farWord,sliceTo_len,count_replicate_self]
  exact ⟨_,span,split,member,front,front ▸ (placed.position lexing).1⟩

/-- Below 2^32 line breaks the line of a statement is 1 again. -/
theorem line_counter_wraps : ∃ spans span,
    splitStatements asciiTables (oracleLike []) (farWord (2^32)) = some spans ∧ span ∈ spans ∧
    (sliceTo (farWord (2^32)) span.contentStart).count '\n' = 2^32 ∧ span.startLine = 1 := by
  obtain ⟨spans,span,split,member,count,line⟩ := farWord_span (2^32)
  exact ⟨spans,span,split,member,count,line⟩

/-- The offset is that of the first character of its line that is not white. -/
def LeadsLine (text : Text) (offset : Nat) : Prop := ∀ c ∈ lineBefore text offset, isWhitespace c = true

theorem floorCharBoundary_of_boundary (here : isCharBoundary text offset = true) :
    floorCharBoundary text offset = offset := by
  cases offset with
  | zero => rfl
  | succ index => rw [floorCharBoundary,if_pos here]

theorem Placed.nonempty (lexed : lexemes u d text = some ls) (placed : Placed d text ls done own span) :
    span.contentStart < span.fullEnd := by
  obtain ⟨⟨more,tail⟩,owns,starts,_,_⟩ := placed
  obtain ⟨l,rest,rfl⟩ := exists_cons_of_ne_nil owns.nonempty
  have filled : l.text ≠ [] := lexemes_filled lexed (by simp [tail]) (starts l rfl)
  obtain ⟨c,cs,same⟩ := exists_cons_of_ne_nil filled
  have size := c.utf8Size_pos
  rw [owns.start,owns.full,flat_append,flat_cons,same]
  simp only [len_append,len_cons]
  omega

/-- A terminator stands before what follows it on its line. -/
theorem terminator_leads_nothing (lexing : Lexing text ls final) (member : t ∈ tokensFrom [] ls)
    (found : isTerminator d text t = true) : ¬LeadsLine text t.stop := by
  obtain ⟨front,back,split⟩ := append_of_mem member
  obtain ⟨a,l,b,rfl,rfl,rfl,rfl⟩ := tokensFrom_split_cons split
  have whole : text = flat (a ++ l :: b) := lexing.flat.symm
  rw [nil_append,isTerminator,Bool.and_eq_true,Token.text_tokenAt whole] at found
  obtain ⟨operator,single⟩ := found
  have kind : l.kind = .operator := by simpa [tokenAt] using operator
  have valid := lexing.valid l (by simp)
  split at single
  · rename_i c same
    have visible : isLexerWhitespace c = false := by
      by_contra white
      have trivial := (valid.blank (valid.operator kind).1 (by simpa [same] using white)).1
      rw [Lexeme.Trivial,kind] at trivial
      rcases trivial with same | same <;> cases same
    obtain ⟨dark,_⟩ := Bool.or_eq_false_iff.mp visible
    have line : lineBefore text (tokenAt a l).stop = lastLine (flat a) ++ [c] := by
      have stop : (tokenAt a l).stop = len (flat a ++ [c]) := by simp [tokenAt,same]
      have front : text = flat a ++ [c] ++ flat b := by simp [whole,same]
      have newline : (c == '\n') = false := by
        rw [beq_eq_false_iff_ne]
        rintro rfl
        exact absurd dark (by decide)
      rw [lineBefore,stop,front,sliceTo_len,← lastLine,lastLine_concat,newline]
      rfl
    intro leads
    have white := leads c (by simp [line])
    rw [dark] at white
    cases white
  · cases single

section
variable {spans : List StatementSpan} {span : StatementSpan}
  (nonempty : ∀ s ∈ spans, s.contentStart < s.fullEnd)
  (ordered : spans.Pairwise fun a b => a.fullEnd ≤ b.contentStart) (member : span ∈ spans)

include nonempty ordered member

/-- Of spans in order, the first that reaches the start of one is that one, unless another
ends there. -/
theorem find_start_iff :
    spans.find? (fun s => s.contentStart ≤ span.contentStart && span.contentStart ≤ s.fullEnd) = some span ↔
      ¬∃ before ∈ spans, before.fullEnd = span.contentStart := by
  have own := nonempty span member
  obtain ⟨pre,post,rfl⟩ := append_of_mem member
  obtain ⟨_,later,across⟩ := pairwise_append.mp ordered
  rw [find?_append]
  constructor
  · rintro found ⟨before,inside,ends⟩
    have short := nonempty before inside
    rcases mem_append.mp inside with front | back
    · have reaches : (pre.find? fun s => s.contentStart ≤ span.contentStart && span.contentStart ≤ s.fullEnd).isSome := by
        rw [find?_isSome]
        exact ⟨before,front,by simp; omega⟩
      obtain ⟨hit,same⟩ := isSome_iff_exists.mp reaches
      rw [same,some_or,some.injEq] at found
      have twice := across span (found ▸ mem_of_find?_eq_some same) span (by simp)
      omega
    · rcases mem_cons.mp back with rfl | back
      · omega
      · have := (pairwise_cons.mp later).1 before back
        omega
  · intro free
    have passed : pre.find? (fun s => s.contentStart ≤ span.contentStart && span.contentStart ≤ s.fullEnd) = none := by
      rw [find?_eq_none]
      intro s front
      have before := across s front span (by simp)
      have apart : s.fullEnd ≠ span.contentStart := fun ends => free ⟨s,by simp [front],ends⟩
      simp
      omega
    rw [passed,none_or,find?_cons_of_pos (by simp; omega)]

end

/-- The cursor at the start of a statement finds it, unless a lone `/` line that ended a
statement is the line directly above. -/
theorem statement_under_cursor_iff (split : splitStatements u d text = some spans) (member : span ∈ spans)
    (leads : LeadsLine text span.contentStart) :
    statementAt u d text span.contentStart = some (some span) ↔
      ¬∃ before ∈ spans, before.endedBy = .slashLine ∧ before.fullEnd = span.contentStart := by
  obtain ⟨ls,final,lexed,lexing,rfl,placed⟩ := splitStatements_placed split
  have partition : Partition text [] ls (splitTokens d text (tokensFrom [] ls)) := splitTokens_partition lexing
  have sound := partition.sound lexing.flat.symm
  have nonempty : ∀ s ∈ splitTokens d text (tokensFrom [] ls), s.contentStart < s.fullEnd := by
    intro s inside
    obtain ⟨done,own,placed⟩ := placed s inside
    exact placed.nonempty lexed
  have ends : (∃ before ∈ splitTokens d text (tokensFrom [] ls), before.fullEnd = span.contentStart) ↔
      ∃ before ∈ splitTokens d text (tokensFrom [] ls),
        before.endedBy = .slashLine ∧ before.fullEnd = span.contentStart := by
    constructor
    · rintro ⟨before,inside,reaches⟩
      obtain ⟨done,own,placed⟩ := placed before inside
      rcases placed.ended with slash | last | ⟨t,token,found,stop⟩
      · exact ⟨before,inside,slash,reaches⟩
      · have := nonempty span member
        have := (sound span member).inside
        omega
      · exact absurd (reaches ▸ leads) (stop ▸ terminator_leads_nothing lexing token found)
    · rintro ⟨before,inside,_,reaches⟩
      exact ⟨before,inside,reaches⟩
  have own := sound span member
  have short : min span.contentStart (len text) = span.contentStart := by
    have := own.contentOrder
    have := own.fullOrder
    have := own.inside
    omega
  rw [← ends,← find_start_iff nonempty partition.ordered member]
  simp only [statementAt,split,map_some,some.injEq,short,floorCharBoundary_of_boundary own.startBoundary]
  have reached : ((splitTokens d text (tokensFrom [] ls)).find? fun s =>
      s.contentStart ≤ span.contentStart && span.contentStart ≤ s.fullEnd).isSome := by
    rw [find?_isSome]
    have := nonempty span member
    exact ⟨span,member,by simp; omega⟩
  obtain ⟨hit,found⟩ := isSome_iff_exists.mp reached
  rw [found]

/-- The first statement of a line below a `;` is found. -/
theorem statement_below_terminator : splitStatements asciiTables (oracleLike []) "COMMIT;\nROLLBACK;".toList =
      some [⟨0,6,7,1,1,.plain,.terminator,true⟩,⟨8,16,17,2,1,.plain,.terminator,true⟩] ∧
    statementAt asciiTables (oracleLike []) "COMMIT;\nROLLBACK;".toList 8 =
      some (some ⟨8,16,17,2,1,.plain,.terminator,true⟩) := by
  have split : splitStatements asciiTables (oracleLike []) "COMMIT;\nROLLBACK;".toList =
      some [⟨0,6,7,1,1,.plain,.terminator,true⟩,⟨8,16,17,2,1,.plain,.terminator,true⟩] := by decide
  have member : (⟨8,16,17,2,1,.plain,.terminator,true⟩ : StatementSpan) ∈
      [⟨0,6,7,1,1,.plain,.terminator,true⟩,⟨8,16,17,2,1,.plain,.terminator,true⟩] := by decide
  have leads : LeadsLine "COMMIT;\nROLLBACK;".toList 8 := all_eq_true.mp (by decide)
  exact ⟨split,(statement_under_cursor_iff split member leads).mpr (by decide)⟩

/-- Below a block that a `/` line ended, the cursor at the next statement finds the block. -/
theorem cursor_below_slash_line : splitStatements asciiTables (oracleLike []) "BEGIN NULL; END;\n/\nCOMMIT;".toList =
      some [⟨0,15,19,1,1,.block,.slashLine,true⟩,⟨19,25,26,3,1,.plain,.terminator,true⟩] ∧
    LeadsLine "BEGIN NULL; END;\n/\nCOMMIT;".toList 19 ∧
    statementAt asciiTables (oracleLike []) "BEGIN NULL; END;\n/\nCOMMIT;".toList 19 =
      some (some ⟨0,15,19,1,1,.block,.slashLine,true⟩) := by
  exact ⟨by decide,all_eq_true.mp (by decide),by decide⟩

end Reldex
