import Reldex.SplitterSpans

/-! Where statements start. The loop of the splitter looks for a statement in normal mode
only, and trivia leads from there into a block comment at most. Inside a block comment
every lexeme is trivia but the last one of the document, which is an error when the
comment is never closed; it is the one place where comment text can start a statement. -/
namespace Reldex
open Option Bool
open List hiding span
variable {u : UnicodeTables} {d : SqlDialect} {text : Text} {done more ls : List Lexeme} {final : Mode}
  {read : List Token}

def modeAt : Nat → List Lexeme → Nat → Option Mode
  | _, [], _ => none
  | pos, l :: rest, offset => if pos = offset then some l.entry else modeAt (pos + len l.text) rest offset

theorem len_pos (some : text ≠ []) : 0 < len text := by
  obtain ⟨c,cs,rfl⟩ := exists_cons_of_ne_nil some
  have := utf8Size_positive c
  rw [len_cons]
  omega

theorem modeAt_append (nonempty : ∀ l ∈ done, l.text ≠ []) :
    modeAt pos (done ++ l :: more) (pos + len (flat done)) = some l.entry := by
  induction done generalizing pos with
  | nil => simp [modeAt]
  | cons first done ih =>
    have size := len_pos (nonempty first (by simp))
    rw [cons_append,modeAt,if_neg (by simp; omega),flat_cons,len_append,← Nat.add_assoc]
    exact ih fun k member => nonempty k (by simp [member])

theorem isTerminator_operator (found : isTerminator d text t = true) : t.kind = .operator := by
  simp only [isTerminator,and_eq_true,beq_iff_eq] at found
  exact found.1

def AtNormal (ls : List Lexeme) (final : Mode) (rest : List Token) : Prop :=
  ∃ done more, ls = done ++ more ∧ rest = tokensFrom done more ∧ (more = [] ∨ Chain .normal more final)

section
variable (lexing : Lexing text ls final)
include lexing

theorem AtNormal.after (cut : tokensFrom [] ls = front ++ t :: rest)
    (operator : t.kind = .operator) : AtNormal ls final rest := by
  obtain ⟨a,l,b,rfl,_,rfl,rfl⟩ := tokensFrom_split_cons cut
  have normal : l.leave = .normal := ((lexing.valid l (by simp)).operator operator).2
  have chain := lexing.chain.after
  rw [normal] at chain
  exact ⟨a ++ [l],b,by simp,by simp,.inr chain⟩

theorem Closed.atNormal (cut : tokensFrom [] ls = front ++ cur)
    (closed : Closed d text (tokensFrom [] ls) contentStart cur read o) : AtNormal ls final o.next := by
  cases closed with
  | eof => exact ⟨ls,[],by simp,rfl,.inl rfl⟩
  | slash body lone =>
    rw [← append_assoc] at cut
    exact .after lexing cut (slashLine_operator lone)
  | terminator body found =>
    rw [← append_assoc] at cut
    exact .after lexing cut (isTerminator_operator found)
  | @finished semi next kind body found =>
    rw [← append_assoc] at cut
    rcases finishWithMaybeSlash_cases d text semi.start semi.stop next kind with
      same | ⟨between,slash,rest,rfl,_,lone,same⟩
    · rw [same]
      exact .after lexing cut (isTerminator_operator found)
    · rw [same]
      rw [append_cons,← append_assoc] at cut
      exact .after lexing cut (slashLine_operator lone)

theorem splitTurn_atNormal (tail : s.rest <:+ tokensFrom [] ls)
    (moved : splitTurn d text (tokensFrom [] ls) s = .next t) : AtNormal ls final t.rest := by
  rcases splitTurn_cases d text (tokensFrom [] ls) s with
    ⟨_,same⟩ | ⟨first,rest,here,⟨lone,same⟩ | ⟨_,cursor,same⟩⟩
  all_goals
    rw [moved] at same
    cases same
  all_goals
    obtain ⟨front,cut⟩ := (skipTrivial_suffix s.rest).trans tail
    rw [here] at cut
  · have lone := ((and_eq_true ..).mp lone).2
    exact .after lexing cut.symm (slashLine_operator lone)
  · obtain ⟨read,closed,_⟩ := scanStatement_closed d text (tokensFrom [] ls) first.start (first :: rest)
    exact closed.atNormal lexing cut.symm

theorem reached_atNormal (path : Turn.Reaches (splitTurn d text (tokensFrom [] ls)) (splitStart (tokensFrom [] ls)) s) :
    AtNormal ls final s.rest :=
  (path.invariant (fun s => s.rest <:+ tokensFrom [] ls ∧ AtNormal ls final s.rest)
    (fun _ _ before moved => ⟨(splitTurn_suffix moved).trans before.1,splitTurn_atNormal lexing before.1 moved⟩)
    ⟨suffix_rfl,[],ls,rfl,rfl,.inr lexing.chain⟩).2

end

theorem Chain.unquoted (chain : Chain mode ls final) (start : mode.Unquoted) (valid : ∀ l ∈ ls, l.Valid)
    (trivials : ∀ l ∈ ls, l.Trivial) : final.Unquoted := by
  induction chain with
  | nil => exact start
  | @cons mode rest final l entry _ ih =>
    refine ih ?_ (fun k member => valid k (by simp [member])) (fun k member => trivials k (by simp [member]))
    exact (valid l (by simp)).unquoted (trivials l (by simp)) (entry ▸ start)

theorem trivial_of_tokensFrom (trivials : ∀ t ∈ tokensFrom done more, isTrivial t.kind = true) :
    ∀ l ∈ more, l.Trivial := by
  induction more generalizing done with
  | nil => simp
  | cons l more ih =>
    simp only [tokensFrom_cons,mem_cons,forall_eq_or_imp] at trivials ⊢
    exact ⟨by simpa [tokenAt,isTrivial,Lexeme.Trivial] using trivials.1,ih trivials.2⟩

/-- A statement starts in normal mode, or at the last token of a comment left open. -/
theorem statement_entry (lexing : Lexing text ls final)
    (path : Turn.Reaches (splitTurn d text (tokensFrom [] ls)) (splitStart (tokensFrom [] ls)) s)
    (found : skipTrivial s.rest = first :: rest) :
    ∃ done l more, ls = done ++ l :: more ∧ first = tokenAt done l ∧
      (l.entry = .normal ∨ (l.entry = .blockComment ∧ rest = [])) := by
  obtain ⟨done,more,whole,cut,chain⟩ := reached_atNormal lexing path
  obtain ⟨blank,same,trivial⟩ := skipTrivial_split s.rest
  rw [found,cut] at same
  have visible := skipTrivial_visible found
  obtain ⟨a,l,b,rfl,rfl,rfl,rfl⟩ := tokensFrom_split_cons same
  have chain := chain.resolve_left (by simp)
  obtain ⟨middle,front,back⟩ := chain.split
  have unquoted : middle.Unquoted := front.unquoted (.inl rfl)
    (fun k member => lexing.valid k (by simp [whole,member])) (trivial_of_tokensFrom trivial)
  have entry : l.entry = middle := by
    cases back with
    | cons entry _ => exact entry
  refine ⟨done ++ a,l,b,by simp [whole],rfl,?_⟩
  rcases unquoted with normal | comment
  · exact .inl (entry.trans normal)
  · refine .inr ⟨entry.trans comment,?_⟩
    by_contra left
    have some : b ≠ [] := by
      rintro rfl
      exact left rfl
    have inner : l ∈ ls.dropLast := by
      rw [whole,append_cons,← append_assoc,dropLast_append_of_ne_nil some]
      simp
    rcases lexing.inner l inner (entry.trans comment) with kind | kind <;> simp [tokenAt,kind,isTrivial] at visible

theorem latest_mem (found : latest spans = some span) : span ∈ spans := by
  induction spans with
  | nil => cases found
  | cons first rest ih =>
    simp only [latest] at found
    cases same : latest rest with
    | none =>
      rw [same] at found
      cases found
      exact mem_cons_self ..
    | some best =>
      simp only [same] at found
      split at found
      · exact mem_cons_of_mem _ (ih (same.trans found))
      · cases found
        exact mem_cons_self ..

theorem statementAt_mem (split : splitStatements u d text = some spans)
    (found : statementAt u d text offset = some (some span)) : span ∈ spans := by
  simp only [statementAt,split,map_some,some.injEq] at found
  split at found
  · rename_i hit same
    cases found
    exact mem_of_find?_eq_some same
  · split at found
    · cases found
    · rename_i preceding same
      split at found
      · cases found
      · cases found
        exact mem_of_mem_filter (latest_mem same)

/-- All that is left is trivia and the last token of a block comment that is never closed. -/
def OpenCommentLeft (ls : List Lexeme) (rest : List Token) : Prop :=
  ∃ last, skipTrivial rest = [last] ∧ modeAt 0 ls last.start = some .blockComment

/-- Statements start outside comments exactly when the loop is never left with only the
end of an open comment. -/
theorem statements_start_outside_comments_iff (delimiters : d.NonEmptyBlockDelimiters)
    (lexed : lexemes u d text = some ls) (split : splitStatements u d text = some spans) :
    ((∀ span ∈ spans, modeAt 0 ls span.contentStart = some .normal) ∧
      ∀ offset span, statementAt u d text offset = some (some span) →
        modeAt 0 ls span.contentStart = some .normal) ↔
    ∀ s, Turn.Reaches (splitTurn d text (layout 0 ls)) (splitStart (layout 0 ls)) s → ¬ OpenCommentLeft ls s.rest := by
  obtain ⟨final,lexing⟩ := lexemes_lexing lexed
  have nonempty := lexemes_nonempty delimiters lexed
  change _ ↔ ∀ s, Turn.Reaches (splitTurn d text (tokensFrom [] ls)) (splitStart (tokensFrom [] ls)) s → _
  have splitted : spans = splitTokens d text (tokensFrom [] ls) := by
    simp only [splitStatements,tokenize,lexed,map_some,some.injEq] at split
    exact split.symm
  have entered (done more : List Lexeme) (l : Lexeme) (whole : ls = done ++ l :: more) :
      modeAt 0 ls (tokenAt done l).start = some l.entry := by
    have start : modeAt 0 (done ++ l :: more) (0 + len (flat done)) = some l.entry :=
      modeAt_append fun k member => nonempty k (whole ▸ mem_append_left _ member)
    rwa [Nat.zero_add,← whole] at start
  constructor
  · rintro ⟨outside,_⟩ s path ⟨last,left,comment⟩
    obtain ⟨done,l,more,whole,rfl,_⟩ := statement_entry lexing path left
    rw [entered done more l whole,some.injEq] at comment
    have real : idleSlash d text (tokenAt done l) = false := by
      rw [eq_false_iff]
      intro lone
      have operator := slashLine_operator ((and_eq_true ..).mp lone).2
      have normal := ((lexing.valid l (by simp [whole])).operator operator).1
      rw [comment] at normal
      cases normal
    have normal := outside _ (splitted ▸ mem_splitTokens.mpr ⟨s,_,_,⟨path,left,real⟩,rfl⟩)
    have start := entered done more l whole
    rw [comment] at start
    cases start.symm.trans normal
  · intro closed
    have outside : ∀ span ∈ spans, modeAt 0 ls span.contentStart = some .normal := by
      intro span member
      rw [splitted,mem_splitTokens] at member
      obtain ⟨s,first,rest,here,rfl⟩ := member
      obtain ⟨done,l,more,whole,rfl,entry⟩ := statement_entry lexing here.reached here.found
      have start := entered done more l whole
      rcases entry with normal | ⟨comment,none⟩
      · rw [normal] at start
        exact start
      · rw [comment] at start
        exact absurd ⟨_,none ▸ here.found,start⟩ (closed s here.reached)
    exact ⟨outside,fun offset span found => outside span (statementAt_mem split found)⟩

theorem statements_start_outside_comments_iff_closed :
    ∃ ls, lexemes asciiTables (oracleLike []) "/* a\n*/SELECT 1;".toList = some ls ∧
      ((∀ span ∈ [(⟨7,15,16,2,3,.plain,.terminator,true⟩ : StatementSpan)],
          modeAt 0 ls span.contentStart = some .normal) ∧
        (∀ offset span, statementAt asciiTables (oracleLike []) "/* a\n*/SELECT 1;".toList offset =
          some (some span) → modeAt 0 ls span.contentStart = some .normal) ↔
      ∀ s, Turn.Reaches (splitTurn (oracleLike []) "/* a\n*/SELECT 1;".toList (layout 0 ls))
        (splitStart (layout 0 ls)) s → ¬ OpenCommentLeft ls s.rest) := by
  obtain ⟨ls,lexed⟩ := lexemes_total (u := asciiTables) (oracleLike_delimiters []) "/* a\n*/SELECT 1;".toList
  have split : splitStatements asciiTables (oracleLike []) "/* a\n*/SELECT 1;".toList =
      some [⟨7,15,16,2,3,.plain,.terminator,true⟩] := by decide +kernel
  exact ⟨ls,lexed,statements_start_outside_comments_iff (oracleLike_delimiters []) lexed split⟩

/-- The last line of an open comment becomes a statement, which `statement_at` returns. -/
theorem open_comment_starts_statement :
    ∃ ls, lexemes asciiTables (oracleLike []) "/* a\nDROP TABLE t".toList = some ls ∧
      splitStatements asciiTables (oracleLike []) "/* a\nDROP TABLE t".toList =
        some [⟨5,17,17,2,1,.plain,.endOfInput,false⟩] ∧
      statementAt asciiTables (oracleLike []) "/* a\nDROP TABLE t".toList 9 =
        some (some ⟨5,17,17,2,1,.plain,.endOfInput,false⟩) ∧
      modeAt 0 ls 5 = some .blockComment := by
  obtain ⟨ls,lexed⟩ := lexemes_total (u := asciiTables) (oracleLike_delimiters []) "/* a\nDROP TABLE t".toList
  have entered : (lexemes asciiTables (oracleLike []) "/* a\nDROP TABLE t".toList).map (modeAt 0 · 5) =
      some (some .blockComment) := by decide +kernel
  rw [lexed] at entered
  exact ⟨ls,lexed,by decide +kernel,by decide +kernel,some.inj entered⟩

end Reldex
