import Reldex.Text
import Reldex.Turn

/-! The loop with which the Oracle crate reads a statement, as the driver has it twice: once for
the first keyword and once for the bind placeholders. Both are meant as literal copies; they
part behind a line comment. -/
namespace Reldex.OracleThin
open List Option Nat

section
variable (u : UnicodeTables) (text : Text)

/-- `while position < text.len() && text[position] != stop { position += 1 }` -/
def seek (stop : Char) (position : Nat) : Nat :=
  position + ((text.drop position).takeWhile (· != stop)).length

/-- Characters before the `*/` that ends a block comment, all but the last when there is none. -/
def commentLen : Text → Nat
  | [] => 0
  | [_] => 0
  | c :: next :: rest => if c == '*' && next == '/' then 0 else 1 + commentLen (next :: rest)

def upper (text : Text) : Text := text.flatMap u.toUppercase

/-- What `determine_statement_type` makes of the first keyword. -/
def isRowKeyword (keyword : Text) : Bool :=
  upper u keyword == "SELECT".toList || upper u keyword == "WITH".toList

structure RowsState where
  position : Nat
  keywordStart : Option Nat
  lastWasAlpha : Bool
  lastCh : Char
  deriving DecidableEq, Repr

/-- Where the body of the first loop leaves the position. -/
def rowsMoved (ch lastCh : Char) (position : Nat) : Nat :=
  if ch == '\'' then seek text '\'' (position + 1)
  else if !isWhitespace ch then
    if ch == '-' && lastCh == '-' then seek text '\n' position
    else if ch == '*' && lastCh == '/' then
      min (position + 1 + commentLen (text.drop (position + 1)) + 1) text.length
    else if ch == '"' then seek text '"' (position + 1)
    else position
  else position

def rowsTurn (s : RowsState) : Turn RowsState Bool :=
  match text.drop s.position with
  | [] =>
    match s.keywordStart with
    | some start => .done (s.lastWasAlpha && isRowKeyword u (text.drop start))
    | none => .done false
  | ch :: _ =>
    let isAlpha := ch.isAlpha
    if !isAlpha && s.lastWasAlpha then
      let start := s.keywordStart.getD s.position
      .done (isRowKeyword u ((text.take s.position).drop start))
    else
      let keywordStart := if isAlpha && !s.lastWasAlpha then some s.position else s.keywordStart
      .next ⟨rowsMoved text ch s.lastCh s.position + 1,keywordStart,isAlpha,ch⟩

def rowsStart : RowsState := ⟨0,none,false,' '⟩

def upstreamWouldReturnRows : Bool :=
  (Turn.run (rowsTurn u text) (text.length + 1) rowsStart).getD false

/-- The closing delimiter for an opening one. -/
def closing (delimiter : Char) : Char :=
  match delimiter with
  | '[' => ']'
  | '{' => '}'
  | '<' => '>'
  | '(' => ')'
  | other => other

def namesABind (colon : Nat) : Bool :=
  match (text.drop (colon + 1)).dropWhile isWhitespace with
  | [] => false
  | ch :: _ => ch == '"' || ch.isDigit || u.isAlphabetic ch

def skipQuoted (start : Nat) (quote : Char) : Nat := min (seek text quote (start + 1)) text.length

def qStringLen (stop : Char) : Text → Nat
  | [] => 0
  | ch :: rest => if ch == stop && rest.head? == some '\'' then 1 else 1 + qStringLen stop rest

def skipQString (start : Nat) : Nat :=
  match text.drop (start + 1) with
  | [] => start + 1
  | separator :: rest => start + 2 + qStringLen (closing separator) rest

def lineLen : Text → Nat
  | [] => 0
  | ch :: rest => if ch == '\n' then 1 else 1 + lineLen rest

def skipToEndOfLine (start : Nat) : Nat := start + lineLen (text.drop start)

def blockCommentLen (previous : Char) : Text → Nat
  | [] => 0
  | ch :: rest => if ch == '/' && previous == '*' then 0 else 1 + blockCommentLen ch rest

def skipBlockComment (star : Nat) : Nat := star + 1 + blockCommentLen ' ' (text.drop (star + 1))

structure BindState where
  position : Nat
  lastWasString : Bool
  lastCh : Char
  deriving DecidableEq, Repr

/-- Where the body of the second loop leaves the position. -/
def bindMoved (ch lastCh : Char) (position : Nat) : Nat :=
  if ch == '\'' then
    if lastCh.toLower == 'q' then skipQString text position else skipQuoted text position '\''
  else if !isWhitespace ch then
    if ch == '-' && lastCh == '-' then skipToEndOfLine text position
    else if ch == '*' && lastCh == '/' then skipBlockComment text position
    else if ch == '"' then skipQuoted text position '"'
    else position
  else position

def bindTurn (s : BindState) : Turn BindState Bool :=
  match text.drop s.position with
  | [] => .done false
  | ch :: _ =>
    if ch == ':' && !s.lastWasString && namesABind u text s.position then .done true
    else
      let lastWasString := if ch == '\'' then true else isWhitespace ch && s.lastWasString
      .next ⟨bindMoved text ch s.lastCh s.position + 1,lastWasString,ch⟩

def bindStart : BindState := ⟨0,false,' '⟩

def upstreamFindsABindPlaceholder : Bool :=
  (Turn.run (bindTurn u text) (text.length + 1) bindStart).getD false

end

section
variable {u : UnicodeTables} {text rest : Text} {ch lastCh : Char} {position : Nat}

theorem seek_le (stop : Char) (inside : position ≤ text.length) : seek text stop position ≤ text.length := by
  have front : (text.drop position).takeWhile (· != stop) <+: text.drop position := takeWhile_prefix _
  have shorter := front.length_le
  rw [length_drop] at shorter
  rw [seek]
  omega

theorem skipQuoted_eq (quote : Char) (inside : position < text.length) :
    skipQuoted text position quote = seek text quote (position + 1) :=
  min_eq_left (seek_le quote inside)

theorem blockCommentLen_eq (previous : Char) (rest : Text) :
    blockCommentLen previous rest = commentLen (previous :: rest) := by
  induction rest generalizing previous with
  | nil => rfl
  | cons ch rest ih => rw [blockCommentLen,commentLen,ih,Bool.and_comm]

theorem skipBlockComment_eq (inside : position < text.length) : skipBlockComment text position =
    min (position + 1 + commentLen (text.drop (position + 1)) + 1) text.length := by
  have size : (text.drop (position + 1)).length = text.length - (position + 1) := length_drop
  rw [skipBlockComment]
  cases left : text.drop (position + 1) with
  | nil =>
    rw [left,length_nil] at size
    rw [blockCommentLen,commentLen]
    omega
  | cons ch rest =>
    have short : commentLen (ch :: rest) ≤ rest.length := by
      clear left size
      induction rest generalizing ch with
      | nil => exact le_rfl
      | cons next rest ih =>
        have later := ih next
        rw [commentLen,length_cons]
        split <;> omega
    rw [left,length_cons] at size
    rw [blockCommentLen,if_neg (by simp),blockCommentLen_eq]
    omega

theorem lineLen_eq (rest : Text) :
    lineLen rest = (rest.takeWhile (· != '\n')).length + if '\n' ∈ rest then 1 else 0 := by
  induction rest with
  | nil => rfl
  | cons ch rest ih =>
    by_cases line : ch = '\n'
    · simp [lineLen,line]
    · have other : ¬ '\n' = ch := fun same => line same.symm
      simp only [lineLen,beq_iff_eq,line,if_false,ih,takeWhile_cons,bne_iff_ne,ne_eq,not_false_eq_true,if_true,
        length_cons,mem_cons,other,false_or]
      omega

theorem skipToEndOfLine_eq (text : Text) (position : Nat) : skipToEndOfLine text position =
    seek text '\n' position + if '\n' ∈ text.drop position then 1 else 0 := by
  rw [skipToEndOfLine,lineLen_eq,seek,add_assoc]

/-- Away from line comments and q-strings the two copies skip the same. -/
theorem bindMoved_eq (inside : position < text.length) (noQString : ch = '\'' → lastCh.toLower ≠ 'q')
    (noLine : ¬ (ch = '-' ∧ lastCh = '-')) : bindMoved text ch lastCh position = rowsMoved text ch lastCh position := by
  unfold bindMoved rowsMoved
  by_cases quote : ch = '\''
  · simp only [quote,beq_self_eq_true,if_true,beq_iff_eq,noQString quote,if_false,skipQuoted_eq _ inside]
  · simp only [beq_iff_eq,quote,if_false,Bool.and_eq_true,noLine,skipQuoted_eq _ inside,skipBlockComment_eq inside]

theorem bindMoved_line (line : ch = '-' ∧ lastCh = '-') : bindMoved text ch lastCh position = skipToEndOfLine text position := by
  obtain ⟨rfl,rfl⟩ := line
  rfl

theorem rowsMoved_line (line : ch = '-' ∧ lastCh = '-') : rowsMoved text ch lastCh position = seek text '\n' position := by
  obtain ⟨rfl,rfl⟩ := line
  rfl

theorem rowsMoved_ge (text : Text) (ch lastCh : Char) (inside : position < text.length) :
    position ≤ rowsMoved text ch lastCh position := by
  unfold rowsMoved seek
  split
  · omega
  · split
    · split
      · omega
      · split
        · omega
        · split <;> omega
    · exact le_rfl

theorem bindMoved_ge (text : Text) (ch lastCh : Char) (inside : position < text.length) :
    position ≤ bindMoved text ch lastCh position := by
  by_cases line : ch = '-' ∧ lastCh = '-'
  · rw [bindMoved_line line,skipToEndOfLine]
    exact Nat.le_add_right ..
  · by_cases q : ch = '\'' ∧ lastCh.toLower = 'q'
    · simp only [bindMoved,q.1,q.2,beq_self_eq_true,if_true,skipQString]
      split <;> omega
    · rw [bindMoved_eq inside (fun quote same => q ⟨quote,same⟩) line]
      exact rowsMoved_ge text ch lastCh inside

theorem drop_cons_lt (left : text.drop position = ch :: rest) : position < text.length := by
  have size := congrArg length left
  rw [length_drop,length_cons] at size
  omega

theorem rowsTurn_next (moved : rowsTurn u text s = .next t) : ∃ ch rest,
    text.drop s.position = ch :: rest ∧ (s.lastWasAlpha = true → ch.isAlpha = true) ∧
      t.position = rowsMoved text ch s.lastCh s.position + 1 ∧ t.lastWasAlpha = ch.isAlpha ∧ t.lastCh = ch := by
  unfold rowsTurn at moved
  split at moved
  · split at moved <;> cases moved
  · next ch rest left =>
    simp only at moved
    split at moved
    · cases moved
    · next goes =>
      cases moved
      exact ⟨ch,rest,left,fun alpha => by simpa [alpha] using goes,rfl,rfl,rfl⟩

theorem bindTurn_next (moved : bindTurn u text s = .next t) : ∃ ch rest,
    text.drop s.position = ch :: rest ∧ t.position = bindMoved text ch s.lastCh s.position + 1 ∧ t.lastCh = ch := by
  unfold bindTurn at moved
  split at moved
  · cases moved
  · next ch rest left =>
    simp only at moved
    split at moved
    · cases moved
    · cases moved
      exact ⟨ch,rest,left,rfl,rfl⟩

theorem rowsTurn_decreasing (u : UnicodeTables) (text : Text) :
    Turn.Decreasing (rowsTurn u text) (text.length - ·.position) := by
  intro s t moved
  obtain ⟨ch,rest,left,_,position,_⟩ := rowsTurn_next moved
  have forward := rowsMoved_ge text ch s.lastCh (drop_cons_lt left)
  have inside := drop_cons_lt left
  dsimp only
  omega

theorem bindTurn_decreasing (u : UnicodeTables) (text : Text) :
    Turn.Decreasing (bindTurn u text) (text.length - ·.position) := by
  intro s t moved
  obtain ⟨ch,rest,left,position,_⟩ := bindTurn_next moved
  have forward := bindMoved_ge text ch s.lastCh (drop_cons_lt left)
  have inside := drop_cons_lt left
  dsimp only
  omega

end

variable {u : UnicodeTables} {text : Text} {s : RowsState} {t : BindState}

/-- The position a loop examines next; `none` behind the text. -/
def examined (text : Text) (position : Nat) : Option Nat :=
  if position < text.length then some position else none

/-- The two copies examine the same positions while neither has returned. -/
def SamePositions (u : UnicodeTables) (text : Text) : Prop :=
  ∀ n s t, Turn.after (rowsTurn u text) n rowsStart = some s → Turn.after (bindTurn u text) n bindStart = some t →
    examined text s.position = examined text t.position

/-- The loop is at the second dash of a line comment that another line follows. -/
def RowsState.LineFollows (text : Text) (s : RowsState) : Prop :=
  s.lastCh = '-' ∧ ∃ comment ch rest, text.drop s.position = '-' :: comment ++ '\n' :: ch :: rest ∧ '\n' ∉ comment

/-- Both loops run for this many turns, and the first is then at such a comment. -/
def MeetsLine (u : UnicodeTables) (text : Text) (n : Nat) : Prop :=
  ∃ s t, Turn.after (rowsTurn u text) n rowsStart = some s ∧ Turn.after (bindTurn u text) n bindStart = some t ∧
    s.LineFollows text

structure InStep (text : Text) (s : RowsState) (t : BindState) : Prop where
  position : examined text s.position = examined text t.position
  lastCh : s.lastCh = t.lastCh
  alpha : s.lastWasAlpha = s.lastCh.isAlpha

theorem InStep.same (here : InStep text s t) (inside : s.position < text.length) : t.position = s.position := by
  have position := here.position
  simp only [examined,inside,if_true] at position
  split at position
  · exact (some.inj position).symm
  · cases position

theorem isAlpha_of_toLower {c : Char} (letter : c.toLower.isAlpha = true) : c.isAlpha = true := by
  rcases toLower_cases c with same | ⟨upper,_⟩
  · rwa [same] at letter
  · exact (isAlpha_iff c).mpr (.inl upper)

theorem seek_of_line (position : Nat) (left : text.drop position = comment ++ '\n' :: rest) (oneLine : '\n' ∉ comment) :
    seek text '\n' position = position + comment.length ∧ text.length = position + comment.length + 1 + rest.length := by
  have all : ∀ c ∈ comment, (c != '\n') = true := fun c member => bne_iff_ne.mpr (ne_of_mem_of_not_mem member oneLine)
  have size := congrArg length left
  rw [length_drop,length_append,length_cons] at size
  refine ⟨?_,by omega⟩
  rw [seek,left,takeWhile_append_of_pos all,takeWhile_cons_of_neg (by simp),append_nil]

theorem InStep.turn (here : InStep text s t) (none : ¬ s.LineFollows text)
    (moved : rowsTurn u text s = .next s') (moved' : bindTurn u text t = .next t') : InStep text s' t' := by
  obtain ⟨ch,rest,left,alpha,position,isAlpha,lastCh⟩ := rowsTurn_next moved
  obtain ⟨ch',rest',left',position',lastCh'⟩ := bindTurn_next moved'
  have inside := drop_cons_lt left
  rw [here.same inside,left,cons.injEq] at left'
  obtain ⟨rfl,_⟩ := left'
  refine ⟨?_,lastCh.trans lastCh'.symm,isAlpha.trans (by rw [lastCh])⟩
  rw [position,position',here.same inside,← here.lastCh]
  by_cases line : ch = '-' ∧ s.lastCh = '-'
  · rw [rowsMoved_line line,bindMoved_line line,skipToEndOfLine_eq]
    by_cases ends : '\n' ∈ text.drop s.position
    · -- the line break is the last character: both loops leave the text
      obtain ⟨comment,after,cut,oneLine⟩ := eq_append_cons_of_mem ends
      obtain ⟨stop,size⟩ := seek_of_line s.position cut oneLine
      have last : after = [] := by
        refine Classical.byContradiction fun more => none ⟨line.2,?_⟩
        obtain ⟨next,after,rfl⟩ := exists_cons_of_ne_nil more
        cases comment with
        | nil => simp [left,line.1] at cut
        | cons first comment =>
          have first : first = '-' := by
            rw [left,line.1,cons_append,cons.injEq] at cut
            exact cut.1.symm
          exact ⟨comment,next,after,by rw [cut,first],fun member => oneLine (mem_cons_of_mem _ member)⟩
      rw [last,length_nil] at size
      simp only [examined,ends,if_true,stop]
      rw [if_neg (by omega),if_neg (by omega)]
    · simp only [ends,if_false,add_zero]
  · rw [bindMoved_eq inside ?_ line]
    rintro rfl q
    rw [here.alpha,isAlpha_of_toLower (by rw [q]; rfl)] at alpha
    exact absurd (alpha rfl) (by decide)

theorem inStep_after (none : ∀ m < n, ¬ MeetsLine u text m) (ran : Turn.after (rowsTurn u text) n rowsStart = some s)
    (ran' : Turn.after (bindTurn u text) n bindStart = some t) : InStep text s t := by
  refine Turn.after_lockstep (InStep text) ⟨rfl,rfl,rfl⟩ ?_ ran ran'
  intro m small s t s' t' before before' here moved moved'
  exact here.turn (fun follows => none m small ⟨s,t,before,before',follows⟩) moved moved'

theorem InStep.parts (here : InStep text s t) (follows : s.LineFollows text) : ∃ s' t',
    rowsTurn u text s = .next s' ∧ bindTurn u text t = .next t' ∧
      examined text s'.position ≠ examined text t'.position := by
  obtain ⟨dash,comment,ch,rest,left,oneLine⟩ := follows
  have inside := drop_cons_lt left
  have quiet : s.lastWasAlpha = false := by rw [here.alpha,dash]; rfl
  have left' : text.drop t.position = '-' :: (comment ++ '\n' :: ch :: rest) := by rw [here.same inside,left]; rfl
  have taken : rowsTurn u text s = .next ⟨rowsMoved text '-' s.lastCh s.position + 1,s.keywordStart,false,'-'⟩ := by
    simp only [rowsTurn,left,cons_append,quiet,Bool.and_false,Bool.false_eq_true,if_false]
    rfl
  have taken' : bindTurn u text t = .next ⟨bindMoved text '-' t.lastCh t.position + 1,false,'-'⟩ := by
    simp only [bindTurn,left']
    rfl
  refine ⟨_,_,taken,taken',?_⟩
  obtain ⟨stop,size⟩ := seek_of_line s.position left (by simp [oneLine])
  have found : '\n' ∈ text.drop s.position := by simp [left]
  rw [length_cons] at stop size
  simp only [rowsMoved_line ⟨rfl,dash⟩,bindMoved_line ⟨rfl,here.lastCh.symm.trans dash⟩,here.same inside,
    skipToEndOfLine_eq,found,if_true,examined,stop]
  rw [length_cons] at size
  rw [if_pos (by omega)]
  split
  · intro same
    have := some.inj same
    omega
  · exact some_ne_none _

/-- The two copies of the loop agree just where no line comment before the end of the first keyword
is followed by another line. -/
theorem transcriptions_agree_iff (u : UnicodeTables) (text : Text) :
    SamePositions u text ↔ ∀ n, ¬ MeetsLine u text n := by
  constructor
  · intro same n
    induction n using Nat.strong_induction_on with
    | _ n ih =>
      rintro ⟨s,t,ran,ran',follows⟩
      obtain ⟨s',t',moved,moved',apart⟩ := (inStep_after ih ran ran').parts follows
      have later := Turn.after_succ_iff.mpr ⟨s,ran,moved⟩
      have later' := Turn.after_succ_iff.mpr ⟨t,ran',moved'⟩
      exact apart (same (n + 1) s' t' later later')
  · intro none n s t ran ran'
    exact (inStep_after (fun m _ => none m) ran ran').position

/-- Behind the comment the copies go on at `S` and at `E`. -/
theorem positions_part_after_comment : ¬ SamePositions asciiTables "--x\nSELECT 1 FROM dual".toList := by
  intro same
  have apart := same 2 ⟨4,none,false,'-'⟩ ⟨5,false,'-'⟩ (by decide) (by decide)
  exact absurd apart (by decide)

end Reldex.OracleThin
