import Reldex.SqlLines
import Reldex.SplitterSpans
import Reldex.SplitterView

/-! Spans read through the view. The statements of the view of a document are its spans
one for one, and the content of each is the text of the lexemes from its first one up to
the one that closed it. -/
namespace Reldex
open List hiding span
variable {d : SqlDialect} {text : Text} {done own more ls : List Lexeme} {final : Mode}

def Visible (ls : List Lexeme) : Prop := ∀ l ∈ ls.head?, isTrivial l.kind = false

/-- The view of a lexeme between two texts, of which only the line around it counts. -/
def Lexeme.sig (before after : Text) (l : Lexeme) : Option Sig :=
  if isTrivial l.kind then none
  else if isWord l.kind then some (.word (lower l.text))
  else if l.kind == .operator then
    some (.operator l.text (l.text == ['/'] && (trim (lastLine before)).isEmpty && (trim (firstLine after)).isEmpty))
  else if l.kind == .directive then some .directive
  else some .unread

def lexSigs : Text → List Lexeme → List Sig
  | _, [] => []
  | before, l :: more => (l.sig before (flat more)).toList ++ lexSigs (before ++ l.text) more

theorem sig_tokenAt (whole : text = flat (done ++ l :: more)) :
    (tokenAt done l).sig text = l.sig (flat done) (flat more) := by
  have before : lineBefore text (tokenAt done l).start = lastLine (flat done) := by
    rw [lineBefore,sliceTo_tokenAt whole,lastLine]
  rw [Token.sig,Lexeme.sig,slashLine,isLoneSlashLine,Token.text_tokenAt whole,before,lineAfter_tokenAt whole,firstLine]
  cases kind : l.kind <;> simp [tokenAt,kind]

theorem sigs_tokensFrom (whole : text = flat (done ++ more)) :
    sigs text (tokensFrom done more) = lexSigs (flat done) more := by
  induction more generalizing done with
  | nil => rfl
  | cons l more ih =>
    have later : sigs text (tokensFrom (done ++ [l]) more) = lexSigs (flat (done ++ [l])) more :=
      ih (by rw [whole]; simp)
    rw [tokensFrom_cons,lexSigs,← sig_tokenAt whole]
    cases shown : (tokenAt done l).sig text with
    | none => rw [sigs_cons_none shown,later]; simp
    | some s => rw [sigs_cons_some _ shown,later]; simp

theorem firstLine_break (a b : Text) : firstLine (a ++ '\n' :: b) = firstLine a := by
  induction a with
  | nil => rfl
  | cons c a ih =>
    simp only [firstLine,cons_append,takeWhile_cons] at ih ⊢
    rw [ih]

theorem lastLine_break (a b : Text) : lastLine (a ++ '\n' :: b) = lastLine b := by
  have mirrored (text : Text) : lastLine text = (firstLine text.reverse).reverse := rfl
  rw [mirrored,reverse_append,reverse_cons,append_assoc,singleton_append,firstLine_break,← mirrored]

theorem lexSigs_break (front before : Text) (more : List Lexeme) :
    lexSigs (front ++ '\n' :: before) more = lexSigs before more := by
  induction more generalizing before with
  | nil => rfl
  | cons l more ih =>
    rw [lexSigs,lexSigs,append_assoc,cons_append,ih,Lexeme.sig,Lexeme.sig,lastLine_break]

theorem lexSigs_append (before : Text) (a b : List Lexeme) (breaks : flat b = '\n' :: rest) :
    lexSigs before (a ++ b) = lexSigs before a ++ lexSigs (before ++ flat a) b := by
  induction a generalizing before with
  | nil => simp [lexSigs]
  | cons l a ih =>
    rw [cons_append,lexSigs,lexSigs,ih,Lexeme.sig,Lexeme.sig,flat_append,breaks,firstLine_break]
    simp

theorem lexSigs_lines (before : Text) (a b : List Lexeme) (mode : Mode) :
    lexSigs before (a ++ lineBreak mode :: b) = lexSigs before a ++ lexSigs [] b := by
  rw [lexSigs_append before a (lineBreak mode :: b) (by rw [flat_cons]; rfl),lexSigs]
  congr 1
  exact lexSigs_break (before ++ flat a) [] b

theorem lexSigs_length (before : Text) (more : List Lexeme) :
    (lexSigs before more).length = more.countP (!isTrivial ·.kind) := by
  induction more generalizing before with
  | nil => rfl
  | cons l more ih =>
    rw [lexSigs,length_append,ih,countP_cons,Nat.add_comm]
    cases kind : l.kind <;> simp [Lexeme.sig,kind,isTrivial,isWord]

/-- The span of a statement of the view: it starts after `done`, owns `own` and was closed
by the first lexeme of `more`. -/
structure Shows (text : Text) (done own more : List Lexeme) (span : StatementSpan)
    (statement : List Sig × View.Ending) : Prop where
  kind : span.kind = statement.2.kind
  endedBy : span.endedBy = statement.2.endedBy
  terminated : span.terminated = statement.2.terminated
  line : span.startLine = wrapU32 (1 + (flat done).count '\n')
  content : span.content text = some (if statement.2.trimmed then trimEnd (flat own) else flat own)
  start : lexSigs (flat done) (own ++ more) = statement.1
  starts : Visible (own ++ more)
  closer : lexSigs (flat (done ++ own)) more = statement.2.closer
  closes : Visible more

def Shown (text : Text) (ls : List Lexeme) (span : StatementSpan) (statement : List Sig × View.Ending) : Prop :=
  ∃ done own more, ls = done ++ own ++ more ∧ Shows text done own more span statement

theorem Agrees.shows (lexing : Lexing text ls final) (whole : ls = done ++ l :: rest)
    (visible : isTrivial l.kind = false) (position : start.At (flat done))
    (agrees : Agrees text (tokensFrom [] ls) (len (flat done)) (tokensFrom done (l :: rest)) o e) :
    Shown text ls (o.span start) (lexSigs (flat done) (l :: rest),e) := by
  have flat_text := lexing.flat.symm
  have starts : Visible (l :: rest) := by simpa [Visible] using visible
  have sliced {own more : List Lexeme} {content : Text} {extra : Text} (cut : l :: rest = own ++ more)
      (split : flat own = content ++ extra) (stop : o.contentEnd = len (flat done ++ content)) :
      (o.span start).content text = some content := by
    rw [StatementSpan.content,flat_text,whole,cut,flat_append,flat_append,split,append_assoc,← append_assoc]
    have ends : (o.span start).contentEnd = len (flat done ++ content) := stop
    have begins : (o.span start).contentStart = len (flat done) := position.pos
    rw [ends,begins]
    exact checkedSlice_middle ..
  rcases agrees.close with ⟨eof,closer,exact⟩ | ⟨body,t,after,cut,shown,view,stop⟩
  · refine ⟨done,l :: rest,[],by simp [whole],agrees.kind,agrees.endedBy,agrees.terminated,position.line,?_,
      by simp,by simpa using starts,closer.symm ▸ rfl,by simp [Visible]⟩
    have size : o.contentEnd = len (flat done ++ flat (l :: rest)) := by
      rw [eof,ranToEof_span lexing (by simp [whole]),flat_text,whole,flat_append]
    simp only [exact,Bool.false_eq_true,↓reduceIte]
    exact sliced (append_nil _).symm (append_nil _).symm size
  · obtain ⟨a,k,b,same,rfl,rfl,rfl⟩ := tokensFrom_split_cons cut
    have split : text = flat (done ++ a ++ k :: b) := by rw [flat_text,whole,same,append_assoc]
    have before : sliceTo text (tokenAt (done ++ a) k).start = flat done ++ flat a := by
      rw [sliceTo_tokenAt split,flat_append]
    refine ⟨done,a,k :: b,by simp [whole,same],agrees.kind,agrees.endedBy,agrees.terminated,position.line,?_,
      by rw [same],same ▸ starts,?_,?_⟩
    rotate_left
    · rw [← view,← tokensFrom_cons,sigs_tokensFrom split]
    · exact fun k same => by cases same; exact shown
    rw [before] at stop
    cases trimmed : e.trimmed with
    | true =>
      obtain ⟨blank,_,split⟩ := trimEnd_split (flat a)
      simp only [trimmed,↓reduceIte,trimmed_content] at stop ⊢
      exact sliced same split stop
    | false =>
      simp only [trimmed,Bool.false_eq_true,↓reduceIte] at stop ⊢
      exact sliced same (append_nil _).symm (by rw [stop]; simp [tokenAt])

theorem Walks.shown (lexing : Lexing text ls final) (walks : Walks d text ls done more spans) :
    ∃ statements, View.Splits d (sigs text (tokensFrom [] ls)) (sigs text (tokensFrom done more)) statements ∧
      Forall₂ (Shown text ls) spans statements := by
  induction walks with
  | stop trivial =>
    refine ⟨[],?_,.nil⟩
    rw [sigs_blank trivial]
    exact .stop
  | @idle l b spans done a trivial visible lone _ ih =>
    obtain ⟨statements,view,shown⟩ := ih
    refine ⟨statements,?_,shown⟩
    obtain ⟨s,sig⟩ := sig_of_visible text (t := tokenAt (done ++ a) l) visible
    rw [tokensFrom_append,sigs_append,sigs_blank trivial,tokensFrom_cons,sigs_cons_some _ sig,nil_append]
    refine .idle ?_ (by rwa [← append_assoc] at view)
    simpa [idleSlash,slashLine_sig,sig] using lone
  | @statement l b o own later blank spans done a start whole trivial visible real position scanned cut _ blanks next _ ih =>
    have tail : tokensFrom (done ++ a) (l :: b) <:+ tokensFrom [] ls := by
      rw [whole,tokensFrom_append]
      exact suffix_append ..
    have agrees := scanStatement_agrees d text (tokenAt (done ++ a) l).start tail
    rw [scanned] at agrees
    obtain ⟨statements,view,shown⟩ := ih
    refine ⟨_ :: statements,?_,.cons (agrees.shows lexing whole visible position) shown⟩
    obtain ⟨s,sig⟩ := sig_of_visible text (t := tokenAt (done ++ a) l) visible
    have start : sigs text (tokensFrom (done ++ a) (l :: b)) = s :: sigs text (tokensFrom (done ++ a ++ [l]) b) := by
      rw [tokensFrom_cons,sigs_cons_some _ sig]
    have tiled : text = flat (done ++ a ++ l :: b) := by rw [← lexing.flat,whole]
    rw [tokensFrom_append,sigs_append,sigs_blank trivial,← sigs_tokensFrom tiled,start,nil_append]
    refine .statement ?_ ?_ ?_
    · simpa [idleSlash,slashLine_sig,sig] using real
    · rw [← start]
    · rw [← start,← agrees.next,next,sigs_append,sigs_blank blanks]
      exact view

theorem splitTokens_shown (d : SqlDialect) (lexing : Lexing text ls final) :
    ∃ statements, View.Splits d (lexSigs [] ls) (lexSigs [] ls) statements ∧
      Forall₂ (Shown text ls) (splitTokens d text (tokensFrom [] ls)) statements := by
  have viewed : sigs text (tokensFrom [] ls) = lexSigs [] ls := sigs_tokensFrom lexing.flat.symm
  rw [← viewed]
  exact (splitTokens_walks d lexing).shown lexing

theorem suffix_of_count (same : done ++ more = done' ++ more') (visible : Visible more)
    (count : more.countP (!isTrivial ·.kind) ≤ more'.countP (!isTrivial ·.kind)) : more <:+ more' := by
  have left : more <:+ done ++ more := suffix_append ..
  have right : more' <:+ done ++ more := same ▸ suffix_append ..
  rcases suffix_or_suffix_of_suffix left right with tail | ⟨middle,rfl⟩
  · exact tail
  · cases middle with
    | nil => exact suffix_rfl
    | cons l middle =>
      have shown : isTrivial l.kind = false := visible l rfl
      rw [cons_append,countP_cons,countP_append,shown] at count
      simp only [Bool.not_false,↓reduceIte] at count
      omega

theorem cut_unique (same : done ++ more = done' ++ more') (visible : Visible more) (visible' : Visible more')
    (count : more.countP (!isTrivial ·.kind) = more'.countP (!isTrivial ·.kind)) :
    done = done' ∧ more = more' := by
  have first := suffix_of_count same visible (Nat.le_of_eq count)
  have second := suffix_of_count same.symm visible' (Nat.le_of_eq count.symm)
  have equal : more = more' := first.eq_of_length_le second.length_le
  exact ⟨append_cancel_right (equal ▸ same),equal⟩

/-- What a span shows is determined by how many visible lexemes follow its start and its
close. -/
theorem Shown.shows (shown : Shown text ls span statement) (whole : ls = done ++ own ++ more)
    (starts : Visible (own ++ more)) (closes : Visible more)
    (start : (lexSigs (flat done) (own ++ more)).length = statement.1.length)
    (closer : (lexSigs (flat (done ++ own)) more).length = statement.2.closer.length) :
    Shows text done own more span statement := by
  obtain ⟨done',own',more',cut,shows⟩ := shown
  rw [lexSigs_length,← shows.start,lexSigs_length] at start
  rw [lexSigs_length,← shows.closer,lexSigs_length] at closer
  rw [whole] at cut
  obtain ⟨front,rfl⟩ := cut_unique cut closes shows.closes closer
  rw [append_assoc,append_assoc] at cut
  obtain ⟨rfl,tail⟩ := cut_unique cut starts shows.starts start
  rw [append_cancel_right_eq] at tail
  exact tail ▸ shows

theorem View.Splits.unique (first : View.Splits d whole view a) (second : View.Splits d whole view b) : a = b := by
  induction first generalizing b with
  | stop => cases second; rfl
  | idle lone _ ih =>
    cases second with
    | idle _ later => exact ih later
    | statement real _ _ => rw [lone] at real; cases real
  | statement real scanned _ ih =>
    cases second with
    | idle lone _ => rw [lone] at real; cases real
    | statement _ again later =>
      rw [scanned] at again
      cases again
      rw [ih later]

def StatementSpan.ending (span : StatementSpan) : StatementKind × EndedBy × Bool :=
  (span.kind,span.endedBy,span.terminated)

theorem Shown.endings {statements : List (List Sig × View.Ending)} (shown : Forall₂ (Shown text ls) spans statements) :
    spans.map StatementSpan.ending = statements.map fun s => (s.2.kind,s.2.endedBy,s.2.terminated) := by
  induction shown with
  | nil => rfl
  | cons first _ ih =>
    obtain ⟨_,_,_,_,shows⟩ := first
    rw [map_cons,map_cons,ih,StatementSpan.ending,shows.kind,shows.endedBy,shows.terminated]

variable {u : UnicodeTables} (lexed : lexemes u d text = some ls)
include lexed

theorem splitStatements_shown : ∃ spans statements, splitStatements u d text = some spans ∧
      View.Splits d (lexSigs [] ls) (lexSigs [] ls) statements ∧ Forall₂ (Shown text ls) spans statements := by
  obtain ⟨final,lexing⟩ := lexemes_lexing lexed
  obtain ⟨statements,splits,shown⟩ := splitTokens_shown d lexing
  exact ⟨_,statements,by rw [splitStatements,tokenize,lexed]; rfl,splits,shown⟩

theorem splitStatements_of_splits (splits : View.Splits d (lexSigs [] ls) (lexSigs [] ls) statements) :
    ∃ spans, splitStatements u d text = some spans ∧ Forall₂ (Shown text ls) spans statements := by
  obtain ⟨spans,again,split,splits',shown⟩ := splitStatements_shown lexed
  cases splits.unique splits'
  exact ⟨spans,split,shown⟩

/-- Two texts in which the splitter sees the same, whatever whitespace and comments stand between:
both are split into equally many statements, of the same kinds and ended alike. -/
theorem same_view_is_split_alike (lexed' : lexemes u' d text' = some ls') (same : lexSigs [] ls = lexSigs [] ls') :
    ∃ spans spans', splitStatements u d text = some spans ∧ splitStatements u' d text' = some spans' ∧
      spans.map StatementSpan.ending = spans'.map StatementSpan.ending := by
  obtain ⟨spans,statements,split,splits,shown⟩ := splitStatements_shown lexed
  obtain ⟨spans',split',shown'⟩ := splitStatements_of_splits lexed' (same ▸ splits)
  exact ⟨spans,spans',split,split',(Shown.endings shown).trans (Shown.endings shown').symm⟩

omit lexed in
theorem comment_before_terminator : ∃ spans spans', splitStatements asciiTables (oracleLike []) "x;".toList = some spans ∧
    splitStatements asciiTables (oracleLike []) "X /* ; */ ;".toList = some spans' ∧
    spans.map StatementSpan.ending = spans'.map StatementSpan.ending :=
  same_view_is_split_alike (Option.some_get (by decide)).symm (Option.some_get (by decide)).symm (by decide)

theorem first_shown (front : lexSigs [] ls = .word w :: view)
    (scanned : View.scanStatement d (lexSigs [] ls) (lexSigs [] ls) = e) :
    ∃ span spans statements, splitStatements u d text = some (span :: spans) ∧
      View.Splits d (lexSigs [] ls) e.next statements ∧ Shown text ls span (lexSigs [] ls,e) ∧
      Forall₂ (Shown text ls) spans statements := by
  obtain ⟨spans,statements,split,splits,shown⟩ := splitStatements_shown lexed
  rw [front] at scanned splits ⊢
  cases splits with
  | idle lone _ => simp [View.isLone] at lone
  | statement _ again later =>
    cases scanned.symm.trans again
    cases shown with
    | cons first others => exact ⟨_,_,_,split,later,first,others⟩

end Reldex
