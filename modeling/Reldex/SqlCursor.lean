import Reldex.SqlLexing

/-! The lexer as it is written: a cursor at a byte offset that is advanced by byte lengths, and
slices that panic inside a character. `none` is a panic or a loop that does not end. The lexer
over characters is what it computes. -/
namespace Reldex.Scanning
open Option
open List hiding after

/-- `&text[start..]` and `&text[..stop]`. -/
def checkedFrom (text : Text) (start : Nat) : Option Text :=
  if isCharBoundary text start then some (sliceFrom text start) else none

def checkedTo (text : Text) (stop : Nat) : Option Text :=
  if isCharBoundary text stop then some (sliceTo text stop) else none

/-- `str::find`: the offset of the first such character. -/
def find (p : Char → Bool) : Text → Option Nat
  | [] => none
  | c :: rest => if p c then some 0 else (find p rest).map (c.utf8Size + ·)

structure Cursor where
  text : Text
  pos : Nat

namespace Cursor

def new (text : Text) : Cursor := ⟨text,0⟩
def rest (cursor : Cursor) : Option Text := checkedFrom cursor.text cursor.pos
def peek (cursor : Cursor) : Option (Option Char) := cursor.rest.map (·[0]?)
def peek2 (cursor : Cursor) : Option (Option Char) := cursor.rest.map (·[1]?)
def advance (cursor : Cursor) (size : Nat) : Cursor := { cursor with pos := cursor.pos + size }

def bump (cursor : Cursor) : Option (Option Char × Cursor) :=
  cursor.peek.map fun
    | none => (none,cursor)
    | some ch => (some ch,cursor.advance ch.utf8Size)

def atEnd (cursor : Cursor) : Bool := len cursor.text ≤ cursor.pos

/-- More turns than a loop that reads a character in each can make. -/
def fuel (cursor : Cursor) : Nat := cursor.text.length + 1

end Cursor

/-- `while matches!(cursor.peek(), Some(c) if p(c)) { cursor.bump(); }` -/
def skipWhile (p : Char → Bool) : Nat → Cursor → Option Cursor
  | 0, _ => none
  | fuel + 1, cursor => do
    match ← cursor.peek with
    | none => pure cursor
    | some ch => if p ch then skipWhile p fuel (← cursor.bump).2 else pure cursor

section

def scanSimpleQuoted (quote : Char) : Nat → Cursor → Option (Bool × Cursor)
  | 0, _ => none
  | fuel + 1, cursor => do
    match ← cursor.peek with
    | none => pure (false,cursor)
    | some ch =>
      let next := (← cursor.bump).2
      if ch == quote then
        if (← next.peek) == some quote then scanSimpleQuoted quote fuel (← next.bump).2 else pure (true,next)
      else scanSimpleQuoted quote fuel next

def scanBlockComment (close : Text) : Nat → Cursor → Option (Bool × Cursor)
  | 0, _ => none
  | fuel + 1, cursor => do
    if startsWith (← cursor.rest) close then pure (true,cursor.advance (len close))
    else
      match ← cursor.bump with
      | (none,_) => pure (false,cursor)
      | (some _,next) => scanBlockComment close fuel next

def scanQString (closing : Char) : Nat → Cursor → Option (Bool × Cursor)
  | 0, _ => none
  | fuel + 1, cursor => do
    match ← cursor.peek with
    | none => pure (false,cursor)
    | some ch =>
      let next := (← cursor.bump).2
      if ch == closing then
        if (← next.peek) == some '\'' then pure (true,(← next.bump).2) else scanQString closing fuel next
      else scanQString closing fuel next

variable (u : UnicodeTables)

def leadingIdentifierLen (text : Text) : Nat :=
  match text with
  | [] => 0
  | first :: _ => if u.isAlphabetic first then (find (fun c => !isIdentifierPart u c) text).getD (len text) else 0

/-- Of a text that starts with a colon. -/
def bindVariableLen (text : Text) : Option (Option Nat) := do
  let rest ← checkedFrom text 1
  match rest[0]? with
  | none => pure none
  | some first =>
    if first == '"' then
      let afterQuote ← checkedFrom rest 1
      pure ((find (· == '"') afterQuote).map fun stop => 1 + 1 + stop + 1)
    else if first.isDigit then pure (some (1 + (find (fun c => !c.isDigit) rest).getD (len rest)))
    else if u.isAlphabetic first then
      let size := leadingIdentifierLen u rest
      pure (if 0 < size then some (1 + size) else none)
    else pure none

/-- Of a text that starts with an ampersand. -/
def substitutionVariableLen (text : Text) : Option (Option Nat) := do
  let prefixLen := if startsWith (← checkedFrom text 1) ['&'] then 2 else 1
  let rest ← checkedFrom text prefixLen
  let nameLen :=
    match rest[0]? with
    | none => 0
    | some c =>
      if c.isDigit then (find (fun c => !c.isDigit) rest).getD (len rest)
      else if u.isAlphabetic c then leadingIdentifierLen u rest else 0
  if nameLen == 0 then pure none
  else
    let dot := startsWith (← checkedFrom text (prefixLen + nameLen)) ['.']
    pure (some (if dot then prefixLen + nameLen + 1 else prefixLen + nameLen))

def advanceByChars : Nat → Cursor → Option Cursor
  | 0, cursor => pure cursor
  | count + 1, cursor => do advanceByChars count (← cursor.bump).2

/-- `matches!(cursor.peek(), Some(c) if c.is_ascii_digit())` -/
def peekDigit (cursor : Cursor) : Option Bool := cursor.peek.map fun ch => (ch.map Char.isDigit).getD false

def skipSign (cursor : Cursor) : Option Cursor := do
  match ← cursor.peek with
  | none => pure cursor
  | some ch => if ch == '+' || ch == '-' then pure (← cursor.bump).2 else pure cursor

/-- It looks ahead with a copy of the cursor. -/
def maybeExponent (cursor : Cursor) : Option Cursor := do
  match ← cursor.peek with
  | none => pure cursor
  | some ch =>
    if ch == 'e' || ch == 'E' then
      let lookahead ← skipSign (← cursor.bump).2
      if ← peekDigit lookahead then skipWhile Char.isDigit lookahead.fuel lookahead else pure cursor
    else pure cursor

def scanFraction (cursor : Cursor) : Option Cursor := do maybeExponent (← skipWhile Char.isDigit cursor.fuel cursor)

def scanNumber (cursor : Cursor) : Option Cursor := do
  if (← cursor.peek) == some '.' then scanFraction (← cursor.bump).2
  else
    let next ← skipWhile Char.isDigit cursor.fuel cursor
    if (← next.peek) == some '.' && ((← next.peek2).map Char.isDigit).getD false then scanFraction (← next.bump).2
    else maybeExponent next

end

section

/-- What `next_token` returns and leaves: the kind, the next mode, the cursor and the
line-start flag. -/
structure Scanned where
  kind : TokenKind
  mode : Mode
  cursor : Cursor
  atLineStart : Bool

def resume (kind : TokenKind) (mode : Mode) (scanned : Bool × Cursor) : Scanned :=
  ⟨kind,if scanned.1 then .normal else mode,scanned.2,false⟩

def plainToken (kind : TokenKind) (cursor : Cursor) : Scanned := ⟨kind,.normal,cursor,false⟩

variable (u : UnicodeTables) (d : SqlDialect)

def skipLine (cursor : Cursor) : Option Scanned := do
  pure (plainToken .comment (← skipWhile (· != '\n') cursor.fuel cursor))

def nextTokenComment (atLineStart : Bool) (ch : Char) (cursor : Cursor) : Option (Option Scanned) := do
  let rest ← cursor.rest
  match d.comments.lineComment.filter (startsWith rest) with
  | some mark => (skipLine (cursor.advance (len mark))).map some
  | none =>
    match d.comments.blockComment.filter (startsWith rest ·.1) with
    | some (start,stop) =>
      let body := cursor.advance (len start)
      (scanBlockComment stop body.fuel body).map fun scanned => some (resume .comment .blockComment scanned)
    | none =>
      if !d.comments.lineCommentWords.isEmpty && atLineStart && u.isAlphabetic ch then
        let size := leadingIdentifierLen u rest
        if wordIn d.comments.lineCommentWords (← checkedTo rest size) then
          (skipLine (cursor.advance size)).map some
        else pure none
      else pure none

def nextTokenDirective (ch : Char) (cursor : Cursor) : Option (Option Scanned) := do
  match d.directivePrefix with
  | none => pure none
  | some mark =>
    if ch == mark then
      let rest ← cursor.rest
      let size := if startsWith (← checkedFrom rest mark.utf8Size) [mark] then mark.utf8Size + mark.utf8Size
        else mark.utf8Size
      let name := leadingIdentifierLen u (← checkedFrom rest size)
      pure (if 0 < name then some (plainToken .directive (cursor.advance (size + name))) else none)
    else pure none

def nextTokenWord (cursor : Cursor) : Option Scanned := do
  let rest ← cursor.rest
  let size := leadingIdentifierLen u rest
  let word ← checkedTo rest size
  let after ← checkedFrom rest size
  let plain := plainToken (if d.isKeyword word then .keyword else .identifier) (cursor.advance size)
  if startsWith after ['\''] then
    if wordIn d.quoting.alternativeQuotePrefixes word then
      let quote := (← (cursor.advance size).bump).2
      match ← quote.bump with
      | (some delimiter,body) =>
        let closing := closingDelimiter delimiter
        pure (resume .string (.qString closing) (← scanQString closing body.fuel body))
      | (none,body) => pure (plainToken .error body)
    else if wordIn d.quoting.nationalStringPrefixes word then
      let body := (← (cursor.advance size).bump).2
      pure (resume .string .singleQuoted (← scanSimpleQuoted '\'' body.fuel body))
    else pure plain
  else pure plain

def nextTokenOther (ch : Char) (cursor : Cursor) : Option Scanned := do
  let rest ← cursor.rest
  if startsWith rest ['.','.'] then pure (plainToken .operator (cursor.advance 2))
  else if ch.isDigit || (ch == '.' && ((← cursor.peek2).map Char.isDigit).getD false) then
    pure (plainToken .number (← scanNumber cursor))
  else
    match ← (if ch == ':' && d.bindVariables then bindVariableLen u rest else pure none) with
    | some size => pure (plainToken .bindVariable (cursor.advance size))
    | none =>
      match ← (if ch == '&' && d.substitutionVariables then substitutionVariableLen u rest else pure none) with
      | some size => pure (plainToken .substitutionVariable (cursor.advance size))
      | none =>
        match twoCharOperators.find? (startsWith rest) with
        | some operator => pure (plainToken .operator (← advanceByChars operator.length cursor))
        | none => pure (plainToken .operator (← cursor.bump).2)

def nextTokenNormal (atLineStart : Bool) (cursor : Cursor) : Option Scanned := do
  match ← cursor.peek with
  -- `expect` on a cursor at its end
  | none => failure
  | some ch =>
    if isLexerWhitespace ch then
      pure ⟨.whitespace,.normal,← skipWhile isLexerWhitespace cursor.fuel cursor,atLineStart⟩
    else
      match ← nextTokenComment u d atLineStart ch cursor with
      | some scanned => pure scanned
      | none =>
        match ← nextTokenDirective u d ch cursor with
        | some scanned => pure scanned
        | none =>
          if ch == '"' then
            let body := (← cursor.bump).2
            pure (resume .quotedIdentifier .doubleQuoted (← scanSimpleQuoted '"' body.fuel body))
          else if ch == '\'' then
            let body := (← cursor.bump).2
            pure (resume .string .singleQuoted (← scanSimpleQuoted '\'' body.fuel body))
          else if u.isAlphabetic ch then nextTokenWord u d cursor
          else nextTokenOther u d ch cursor

def nextToken (mode : Mode) (atLineStart : Bool) (cursor : Cursor) : Option Scanned :=
  match mode with
  | .normal => nextTokenNormal u d atLineStart cursor
  | .blockComment =>
    (scanBlockComment (blockCommentClose d) cursor.fuel cursor).map (resume .comment .blockComment)
  | .singleQuoted => (scanSimpleQuoted '\'' cursor.fuel cursor).map (resume .string .singleQuoted)
  | .doubleQuoted => (scanSimpleQuoted '"' cursor.fuel cursor).map (resume .quotedIdentifier .doubleQuoted)
  | .qString closing => (scanQString closing cursor.fuel cursor).map (resume .string (.qString closing))

def tokensFrom : Nat → Mode → Bool → Cursor → Option (List Token × Mode)
  | 0, mode, _, cursor => if cursor.atEnd then some ([],mode) else none
  | fuel + 1, mode, atLineStart, cursor =>
    if cursor.atEnd then some ([],mode)
    else do
      let scanned ← nextToken u d mode atLineStart cursor
      let (tokens,final) ← tokensFrom fuel scanned.mode scanned.atLineStart scanned.cursor
      pure (⟨scanned.kind,cursor.pos,scanned.cursor.pos⟩ :: tokens,final)

def tokenizeBlock (text : Text) (state : Mode) : Option (List Token × Mode) :=
  let cursor := Cursor.new text
  tokensFrom u d cursor.fuel state (state == .normal) cursor

def shift (pos : Nat) (token : Token) : Token := { token with start := token.start + pos, stop := token.stop + pos }

/-- The loop over the lines, from the offset and the state it has come to. -/
def tokenizeLines : Nat → Mode → List Text → Option (List Token × Mode)
  | _, state, [] => some ([],state)
  | pos, state, line :: lines => do
    let (lineTokens,next) ← tokenizeBlock u d line state
    let stop := pos + len line
    let shifted := lineTokens.map (shift pos)
    if lines.isEmpty then pure (shifted,next)
    else
      let (later,final) ← tokenizeLines (stop + 1) next lines
      pure (shifted ++ ⟨.whitespace,stop,stop + 1⟩ :: later,final)

def markLast : List Token → List Token
  | [] => []
  | [last] => [{ last with kind := .error }]
  | first :: next :: rest => first :: markLast (next :: rest)

def tokenize (text : Text) : Option (List Token) := do
  let (tokens,state) ← tokenizeLines u d 0 .normal (text.splitOn '\n')
  pure (if state == .normal then tokens else markLast tokens)

end

section

theorem isCharBoundary_len (front rest : Text) : isCharBoundary (front ++ rest) (len front) = true :=
  (isCharBoundary_iff _ _).mpr ⟨front,rest,rfl,rfl⟩

theorem checkedFrom_len (front rest : Text) : checkedFrom (front ++ rest) (len front) = some rest := by
  rw [checkedFrom,if_pos (isCharBoundary_len ..),sliceFrom_len]

theorem checkedTo_len (front rest : Text) : checkedTo (front ++ rest) (len front) = some front := by
  rw [checkedTo,if_pos (isCharBoundary_len ..),sliceTo_len]

variable (text : Text) (count : Nat)

theorem checkedFrom_take : checkedFrom text (len (text.take count)) = some (text.drop count) := by
  have split := checkedFrom_len (text.take count) (text.drop count)
  rwa [take_append_drop] at split

theorem checkedTo_take : checkedTo text (len (text.take count)) = some (text.take count) := by
  have split := checkedTo_len (text.take count) (text.drop count)
  rwa [take_append_drop] at split

variable (p : Char → Bool) (text : Text)

theorem find_not : (find (fun c => !p c) text).getD (len text) = len (text.takeWhile p) := by
  induction text with
  | nil => rfl
  | cons c rest ih =>
    cases holds : p c with
    | false => simp [find,holds]
    | true =>
      simp only [find,holds,Bool.not_true,Bool.false_eq_true,↓reduceIte,takeWhile_cons,len_cons,← ih]
      cases find (fun c => !p c) rest <;> rfl

theorem find_eq : find p text = if text.any p then some (len (text.takeWhile fun c => !p c)) else none := by
  induction text with
  | nil => rfl
  | cons c rest ih =>
    cases holds : p c with
    | true => simp [find,holds]
    | false =>
      simp only [find,holds,Bool.false_eq_true,↓reduceIte,ih,any_cons,Bool.false_or,takeWhile_cons,Bool.not_false]
      split <;> simp

def left (whole rest : Text) : Cursor := ⟨whole,len whole - len rest⟩

variable {whole text rest : Text}

theorem left_rest (tail : rest <:+ whole) : (left whole rest).rest = some rest := by
  obtain ⟨front,rfl⟩ := tail
  simp only [left,Cursor.rest,len_append,Nat.add_sub_cancel]
  exact checkedFrom_len front rest

theorem left_peek (tail : rest <:+ whole) : (left whole rest).peek = some rest[0]? := by
  rw [Cursor.peek,left_rest tail]
  rfl

theorem left_peek2 (tail : rest <:+ whole) : (left whole rest).peek2 = some rest[1]? := by
  rw [Cursor.peek2,left_rest tail]
  rfl

theorem left_advance (tail : front ++ rest <:+ whole) :
    (left whole (front ++ rest)).advance (len front) = left whole rest := by
  obtain ⟨before,rfl⟩ := tail
  simp only [left,Cursor.advance,len_append,Cursor.mk.injEq,true_and]
  omega

theorem left_take (tail : text <:+ whole) (count : Nat) :
    (left whole text).advance (len (text.take count)) = left whole (text.drop count) := by
  have split : text.take count ++ text.drop count <:+ whole := by rwa [take_append_drop]
  have moved := left_advance split
  rwa [take_append_drop] at moved

theorem left_past (tail : text <:+ whole) (starts : startsWith text mark = true) :
    (left whole text).advance (len mark) = left whole (text.drop mark.length) := by
  obtain ⟨later,rfl⟩ := isPrefixOf_iff_prefix.mp starts
  rw [left_advance tail,drop_left]

theorem left_bump (tail : c :: rest <:+ whole) : (left whole (c :: rest)).bump = some (some c,left whole rest) := by
  have moved : (left whole (c :: rest)).advance c.utf8Size = left whole rest := by
    have joined : [c] ++ rest <:+ whole := tail
    simpa using left_advance joined
  simp [Cursor.bump,left_peek tail,moved]

theorem left_bump_end : (left whole []).bump = some (none,left whole []) := by
  simp [Cursor.bump,left_peek (nil_suffix : ([] : Text) <:+ whole)]

theorem left_fuel (tail : rest <:+ whole) : rest.length < (left whole rest).fuel :=
  Nat.lt_succ_of_le tail.length_le

theorem tail_cons (tail : c :: rest <:+ whole) : rest <:+ whole := (suffix_cons c rest).trans tail

end

variable {whole text rest : Text}

theorem skipWhile_left (p : Char → Bool) (tail : text <:+ whole) (enough : text.length < fuel) :
    skipWhile p fuel (left whole text) = some (left whole (text.dropWhile p)) := by
  induction fuel generalizing text with
  | zero => omega
  | succ fuel ih =>
    cases text with
    | nil => simp [skipWhile,left_peek tail]
    | cons c rest =>
      simp only [length_cons] at enough
      cases holds : p c with
      | false => simp [skipWhile,left_peek tail,holds]
      | true => simpa [skipWhile,left_peek tail,holds,left_bump tail] using ih (tail_cons tail) (by omega)

theorem scanSimpleQuoted_left (quote : Char) (tail : text <:+ whole) (enough : text.length < fuel) :
    scanSimpleQuoted quote fuel (left whole text) =
      some ((Reldex.scanSimpleQuoted quote text).1,left whole (Reldex.scanSimpleQuoted quote text).2) := by
  induction fuel generalizing text with
  | zero => omega
  | succ fuel ih =>
    cases text with
    | nil => simp [scanSimpleQuoted,left_peek tail,Reldex.scanSimpleQuoted]
    | cons c rest =>
      simp only [length_cons] at enough
      have after := tail_cons tail
      by_cases isQuote : c = quote
      · subst isQuote
        cases rest with
        | nil => simp [scanSimpleQuoted,left_peek tail,left_bump tail,left_peek after,Reldex.scanSimpleQuoted]
        | cons next rest =>
          by_cases isNext : next = c
          · subst isNext
            simp only [length_cons] at enough
            simpa [scanSimpleQuoted,left_peek tail,left_bump tail,left_peek after,left_bump after,
              Reldex.scanSimpleQuoted] using ih (tail_cons after) (by omega)
          · simp [scanSimpleQuoted,left_peek tail,left_bump tail,left_peek after,isNext,Reldex.scanSimpleQuoted]
      · have single := ih after (by omega)
        have other := beq_false_of_ne isQuote
        cases rest <;> simpa [scanSimpleQuoted,left_peek tail,left_bump tail,isQuote,other,Reldex.scanSimpleQuoted] using single

theorem scanBlockComment_left (close : Text) (tail : text <:+ whole) (enough : text.length < fuel) :
    scanBlockComment close fuel (left whole text) =
      some ((Reldex.scanBlockComment close text).1,left whole (Reldex.scanBlockComment close text).2) := by
  induction fuel generalizing text with
  | zero => omega
  | succ fuel ih =>
    cases text with
    | nil =>
      cases close with
      | nil => simp [scanBlockComment,left_rest tail,startsWith,Reldex.scanBlockComment,Cursor.advance]
      | cons c rest => simp [scanBlockComment,left_rest tail,startsWith,Reldex.scanBlockComment,left_bump_end]
    | cons c rest =>
      simp only [length_cons] at enough
      cases starts : startsWith (c :: rest) close with
      | true =>
        simp [scanBlockComment,left_rest tail,starts,Reldex.scanBlockComment,left_past tail starts]
      | false =>
        simpa [scanBlockComment,left_rest tail,starts,Reldex.scanBlockComment,left_bump tail] using
          ih (tail_cons tail) (by omega)

theorem scanQString_left (closing : Char) (tail : text <:+ whole) (enough : text.length < fuel) :
    scanQString closing fuel (left whole text) =
      some ((Reldex.scanQString closing text).1,left whole (Reldex.scanQString closing text).2) := by
  induction fuel generalizing text with
  | zero => omega
  | succ fuel ih =>
    cases text with
    | nil => simp [scanQString,left_peek tail,Reldex.scanQString]
    | cons c rest =>
      simp only [length_cons] at enough
      have after := tail_cons tail
      have later := ih after (by omega)
      by_cases isClosing : c = closing
      · subst isClosing
        cases rest with
        | nil => simpa [scanQString,left_peek tail,left_bump tail,left_peek after,Reldex.scanQString] using later
        | cons next rest =>
          by_cases isQuote : next = '\''
          · subst isQuote
            simp [scanQString,left_peek tail,left_bump tail,left_peek after,left_bump after,Reldex.scanQString]
          · simpa [scanQString,left_peek tail,left_bump tail,left_peek after,isQuote,Reldex.scanQString] using later
      · cases rest <;> simpa [scanQString,left_peek tail,left_bump tail,isClosing,Reldex.scanQString] using later

section
variable (u : UnicodeTables)

theorem take_takeWhile (p : Char → Bool) (text : Text) : text.take (text.takeWhile p).length = text.takeWhile p :=
  (prefix_iff_eq_take.mp (List.takeWhile_prefix p)).symm

theorem len_eq_zero {text : Text} : len text = 0 ↔ text = [] := by
  cases text with
  | nil => simp
  | cons c rest =>
    have positive := c.utf8Size_pos
    simp
    omega

variable (text : Text)

theorem leadingIdentifierLen_eq :
    leadingIdentifierLen u text = len (text.take (Reldex.leadingIdentifierLen u text)) := by
  cases text with
  | nil => rfl
  | cons first rest =>
    simp only [leadingIdentifierLen,Reldex.leadingIdentifierLen]
    split
    · rw [find_not,take_takeWhile]
    · simp

theorem leadingIdentifierLen_le : Reldex.leadingIdentifierLen u text ≤ text.length := by
  cases text with
  | nil => exact Nat.le_refl 0
  | cons first rest =>
    simp only [Reldex.leadingIdentifierLen]
    split
    · exact (List.takeWhile_prefix _).length_le
    · exact Nat.zero_le _

theorem leadingIdentifierLen_positive : 0 < leadingIdentifierLen u text ↔ 0 < Reldex.leadingIdentifierLen u text := by
  have bounded := leadingIdentifierLen_le u text
  rw [leadingIdentifierLen_eq,Nat.pos_iff_ne_zero,Nat.pos_iff_ne_zero,Ne,len_eq_zero,take_eq_nil_iff]
  constructor
  · intro some none
    exact some (.inl none)
  · rintro some (none | rfl)
    · exact some none
    · simp at bounded
      exact some bounded

theorem take_through {p : Char → Bool} {text : Text} (found : text.dropWhile p = c :: rest) :
    text.take ((text.takeWhile p).length + 1) = text.takeWhile p ++ [c] := by
  have whole := takeWhile_append_dropWhile (p := p) (l := text)
  rw [found] at whole
  generalize text.takeWhile p = front at whole ⊢
  subst whole
  simp [take_append]

theorem len_take_one (c : Char) (rest : Text) (count : Nat) :
    len ((c :: rest).take (1 + count)) = c.utf8Size + len (rest.take count) := by
  rw [Nat.add_comm,take_succ_cons,len_cons]

variable (rest : Text)

theorem bindVariableLen_eq : bindVariableLen u (':' :: rest) =
      some ((Reldex.bindVariableLen u rest).map fun size => len ((':' :: rest).take size)) := by
  have colon : checkedFrom (':' :: rest) 1 = some rest := checkedFrom_len [':'] rest
  have one : ':'.utf8Size = 1 := rfl
  simp only [bindVariableLen,colon,bind_eq_bind,bind_some]
  cases rest with
  | nil => rfl
  | cons first after =>
    simp only [getElem?_cons_zero,Reldex.bindVariableLen]
    by_cases quoted : first = '"'
    · subst quoted
      have quote : checkedFrom ('"' :: after) 1 = some after := checkedFrom_len ['"'] after
      simp only [beq_self_eq_true,↓reduceIte,quote,bind_some]
      by_cases closed : '"' ∈ after
      · have some : after.dropWhile (· != '"') ≠ [] := by
          intro none
          simpa using dropWhile_eq_nil_iff.mp none '"' closed
        obtain ⟨c,later,found⟩ := exists_cons_of_ne_nil some
        obtain rfl : c = '"' := by simpa [found] using head_dropWhile_not (· != '"') some
        have offset : find (· == '"') after = Option.some (len (after.takeWhile (· != '"'))) := by
          rw [find_eq,if_pos (by simpa using closed)]
          rfl
        have size : 1 + 1 + (after.takeWhile (· != '"')).length + 1 =
            1 + (1 + ((after.takeWhile (· != '"')).length + 1)) := by omega
        simp only [offset,closed,contains_iff_mem,↓reduceIte,map_some,size,len_take_one,take_through found,
          len_append,len_cons,len_nil,one]
        have two : '"'.utf8Size = 1 := rfl
        exact congrArg (fun size => Option.some (Option.some size)) (by omega)
      · have none : find (· == '"') after = none := by
          rw [find_eq,if_neg (by simpa using closed)]
        simp [none,closed]
    · simp only [beq_iff_eq,quoted,↓reduceIte]
      split
      · rw [find_not]
        simp only [map_some,len_take_one,take_takeWhile,one]
        rfl
      · split
        · simp only [leadingIdentifierLen_positive]
          split
          · simp only [map_some,len_take_one,one,← leadingIdentifierLen_eq]
            rfl
          · rfl
        · rfl

theorem substitutionNameLen_eq : (match rest[0]? with
      | none => 0
      | some c =>
        if c.isDigit then (find (fun c => !c.isDigit) rest).getD (len rest)
        else if u.isAlphabetic c then leadingIdentifierLen u rest else 0) =
      len (rest.take (substitutionNameLen u rest)) := by
  cases rest with
  | nil => rfl
  | cons c after =>
    simp only [getElem?_cons_zero,substitutionNameLen]
    split
    · rw [find_not,take_takeWhile]
    · split
      · exact leadingIdentifierLen_eq u _
      · simp

theorem substitutionNameLen_le : substitutionNameLen u rest ≤ rest.length := by
  cases rest with
  | nil => exact Nat.le_refl 0
  | cons c after =>
    simp only [substitutionNameLen]
    split
    · exact (List.takeWhile_prefix _).length_le
    · split
      · exact leadingIdentifierLen_le u _
      · exact Nat.zero_le _

theorem substitutionVariableLen_eq (after : Text) : substitutionVariableLen u ('&' :: after) =
      some ((Reldex.substitutionVariableLen u after).map fun size => len (('&' :: after).take size)) := by
  have first : checkedFrom ('&' :: after) 1 = some after := checkedFrom_len ['&'] after
  -- the prefix, in characters and in bytes
  obtain ⟨count,prefixLen,sliced,bytes,positive⟩ : ∃ count, (if startsWith after ['&'] then 2 else 1) = count ∧
      checkedFrom ('&' :: after) count = some (after.drop (count - 1)) ∧ len (('&' :: after).take count) = count ∧
      0 < count := by
    cases double : startsWith after ['&'] with
    | false => exact ⟨1,rfl,first,rfl,by decide⟩
    | true =>
      obtain ⟨later,rfl⟩ := isPrefixOf_iff_prefix.mp double
      exact ⟨2,rfl,checkedFrom_len ['&','&'] later,rfl,by decide⟩
  simp only [substitutionVariableLen,first,bind_eq_bind,bind_some,prefixLen,sliced,
    substitutionNameLen_eq,Reldex.substitutionVariableLen]
  have bounded := substitutionNameLen_le u (after.drop (count - 1))
  generalize name : substitutionNameLen u (after.drop (count - 1)) = size at bounded ⊢
  have rest : after.drop (count - 1) = ('&' :: after).drop count := by
    obtain ⟨n,rfl⟩ := Nat.exists_eq_succ_of_ne_zero positive.ne'
    rfl
  rw [rest] at bounded ⊢
  -- characters up to the end of the name, in bytes
  have through (more : Nat) : count + len ((('&' :: after).drop count).take more) = len (('&' :: after).take (count + more)) := by
    rw [take_add,len_append,bytes]
  by_cases empty : size = 0
  · subst empty
    simp
  · have some : ¬len ((('&' :: after).drop count).take size) = 0 := by
      rw [len_eq_zero,take_eq_nil_iff]
      rintro (none | none)
      · exact empty none
      · rw [none] at bounded
        simp at bounded
        exact empty bounded
    simp only [beq_iff_eq,some,empty,↓reduceIte,through,checkedFrom_take,bind_some,drop_drop,map_some]
    split
    · rename_i dot
      obtain ⟨later,split⟩ := isPrefixOf_iff_prefix.mp dot
      have dotted : ('&' :: after).take (count + size + 1) = ('&' :: after).take (count + size) ++ ['.'] := by
        rw [take_add,← split]
        rfl
      rw [dotted,len_append]
      rfl
    · rfl

end

section
variable (tail : text <:+ whole)
include tail

theorem peekDigit_left : peekDigit (left whole text) = some (startsWithDigit text) := by
  rw [peekDigit,left_peek tail]
  cases text <;> rfl

theorem skipSign_left : skipSign (left whole text) = some (left whole (Reldex.skipSign text)) := by
  cases text with
  | nil => simp [skipSign,left_peek tail,Reldex.skipSign]
  | cons sign rest =>
    by_cases isSign : sign = '+' ∨ sign = '-' <;> simp [skipSign,left_peek tail,left_bump tail,isSign,Reldex.skipSign]

theorem maybeExponent_left : maybeExponent (left whole text) = some (left whole (Reldex.maybeExponent text)) := by
  cases text with
  | nil => simp [maybeExponent,left_peek tail,Reldex.maybeExponent]
  | cons e rest =>
    have sign := skipSign_left (tail_cons tail)
    have after : Reldex.skipSign rest <:+ whole := (skipSign_suffix rest).trans (tail_cons tail)
    have digits := skipWhile_left Char.isDigit after (left_fuel after)
    by_cases isE : e = 'e' ∨ e = 'E' <;> cases digit : startsWithDigit (Reldex.skipSign rest) <;>
      simp [maybeExponent,left_peek tail,left_bump tail,isE,sign,peekDigit_left after,digit,digits,
        Reldex.maybeExponent]

theorem scanFraction_left :
    scanFraction (left whole text) = some (left whole (Reldex.maybeExponent (text.dropWhile Char.isDigit))) := by
  have digits := skipWhile_left Char.isDigit tail (left_fuel tail)
  simp [scanFraction,digits,maybeExponent_left ((dropWhile_suffix _).trans tail)]

end

theorem peek_dot (text : Text) : (text[0]? == some '.') = startsWith text ['.'] := by
  cases text <;> simp [startsWith,isPrefixOf,Bool.beq_comm]

theorem scanNumber_left (tail : text <:+ whole) :
    scanNumber (left whole text) = some (left whole (Reldex.scanNumber text)) := by
  have after : text.dropWhile Char.isDigit <:+ whole := (dropWhile_suffix _).trans tail
  have digits := skipWhile_left Char.isDigit tail (left_fuel tail)
  rw [scanNumber_eq]
  simp only [scanNumber,left_peek tail,bind_eq_bind,bind_some,peek_dot,digits,left_peek after,left_peek2 after]
  split
  · rename_i point
    obtain ⟨rest,rfl⟩ := isPrefixOf_iff_prefix.mp point
    rw [singleton_append] at tail ⊢
    simp [left_bump tail,scanFraction_left (tail_cons tail)]
  generalize text.dropWhile Char.isDigit = later at after ⊢
  have second : ((later[1]?).map Char.isDigit).getD false = startsWithDigit (later.drop 1) := by
    rcases later with _ | ⟨c,_ | ⟨next,rest⟩⟩ <;> rfl
  rw [second]
  split
  · rename_i fraction
    obtain ⟨rest,rfl⟩ := isPrefixOf_iff_prefix.mp ((Bool.and_eq_true ..).mp fraction).1
    rw [singleton_append] at after ⊢
    simp [left_bump after,scanFraction_left (tail_cons after)]
  · exact maybeExponent_left after

variable {u : UnicodeTables} {d : SqlDialect}

/-- The byte lexer stands where the lexer over characters stands. -/
def Lexed.scanned (whole : Text) (lexed : Lexed) : Scanned :=
  ⟨lexed.kind,lexed.mode,left whole lexed.rest,lexed.atLineStart⟩

theorem advanceByChars_left (tail : text <:+ whole) (count : Nat) (enough : count ≤ text.length) :
    advanceByChars count (left whole text) = some (left whole (text.drop count)) := by
  induction count generalizing text with
  | zero => rfl
  | succ count ih =>
    cases text with
    | nil => simp at enough
    | cons c rest => simpa [advanceByChars,left_bump tail] using ih (tail_cons tail) (by simpa using enough)

theorem skipLine_left (tail : text <:+ whole) :
    skipLine (left whole text) = some ⟨.comment,.normal,left whole (text.dropWhile (· != '\n')),false⟩ := by
  simp [skipLine,skipWhile_left _ tail (left_fuel tail),plainToken]

theorem nextTokenComment_left (tail : ch :: after <:+ whole) :
    nextTokenComment u d atLineStart ch (left whole (ch :: after)) =
      some ((Reldex.nextTokenComment u d atLineStart (ch :: after)).map (Lexed.scanned whole)) := by
  simp only [nextTokenComment,left_rest tail,bind_eq_bind,bind_some,Reldex.nextTokenComment]
  cases line : d.comments.lineComment.filter (startsWith (ch :: after)) with
  | some mark =>
    obtain ⟨_,starts⟩ := filter_eq_some_iff.mp line
    have rest : (ch :: after).drop mark.length <:+ whole := (drop_suffix ..).trans tail
    simp [left_past tail starts,skipLine_left rest,Lexed.scanned]
  | none =>
    cases block : d.comments.blockComment.filter (startsWith (ch :: after) ·.1) with
    | some pair =>
      obtain ⟨start,stop⟩ := pair
      obtain ⟨_,starts⟩ := filter_eq_some_iff.mp block
      have rest : (ch :: after).drop start.length <:+ whole := (drop_suffix ..).trans tail
      simp [left_past tail starts,scanBlockComment_left stop rest (left_fuel rest),Lexed.scanned,resume,Reldex.resume]
    | none =>
      have rest : (ch :: after).drop (Reldex.leadingIdentifierLen u (ch :: after)) <:+ whole :=
        (drop_suffix ..).trans tail
      simp only [leadingIdentifierLen_eq,checkedTo_take,left_take tail]
      have word : lineCommentWordAt u d atLineStart (ch :: after) =
        (!d.comments.lineCommentWords.isEmpty && atLineStart && u.isAlphabetic ch &&
          wordIn d.comments.lineCommentWords ((ch :: after).take (Reldex.leadingIdentifierLen u (ch :: after)))) := rfl
      by_cases words : (!d.comments.lineCommentWords.isEmpty && atLineStart && u.isAlphabetic ch) = true
      · rw [words,Bool.true_and] at word
        rw [if_pos words,bind_some,word]
        split <;> simp [skipLine_left rest,Lexed.scanned]
      · rw [Bool.eq_false_iff.mpr words,Bool.false_and] at word
        rw [if_neg words,word]
        rfl

theorem nextTokenDirective_left (tail : ch :: after <:+ whole) : nextTokenDirective u d ch (left whole (ch :: after)) =
      some (if 0 < directiveLen u d (ch :: after) then
        some (Lexed.scanned whole (Reldex.plainToken .directive (ch :: after) (directiveLen u d (ch :: after))))
      else none) := by
  cases found : d.directivePrefix with
  | none => simp [nextTokenDirective,directiveLen,found]
  | some mark =>
    by_cases same : ch = mark
    · subst same
      have one : checkedFrom (ch :: after) ch.utf8Size = some after := by
        simpa using checkedFrom_len [ch] after
      obtain ⟨count,size,bytes⟩ : ∃ count, (if startsWith after [ch] then 2 else 1) = count ∧
          (if startsWith after [ch] then ch.utf8Size + ch.utf8Size else ch.utf8Size) =
            len ((ch :: after).take count) := by
        cases double : startsWith after [ch] with
        | false => exact ⟨1,rfl,by simp⟩
        | true =>
          obtain ⟨later,rfl⟩ := isPrefixOf_iff_prefix.mp double
          exact ⟨2,rfl,by simp⟩
      simp only [nextTokenDirective,found,beq_self_eq_true,↓reduceIte,left_rest tail,bind_eq_bind,bind_some,
        one,bytes,checkedFrom_take,directiveLen,size,leadingIdentifierLen_positive]
      split
      · rename_i named
        have through : len ((ch :: after).take count) + leadingIdentifierLen u ((ch :: after).drop count) =
            len ((ch :: after).take (count + Reldex.leadingIdentifierLen u ((ch :: after).drop count))) := by
          rw [take_add,len_append,leadingIdentifierLen_eq]
        rw [if_pos (Nat.add_pos_right _ named),through,left_take tail]
        rfl
      · simp
    · simp [nextTokenDirective,directiveLen,found,same]

theorem nextTokenWord_left (tail : text <:+ whole) :
    nextTokenWord u d (left whole text) = some (Lexed.scanned whole (Reldex.nextTokenWord u d text)) := by
  have after : text.drop (Reldex.leadingIdentifierLen u text) <:+ whole := (drop_suffix ..).trans tail
  simp only [nextTokenWord,left_rest tail,bind_eq_bind,bind_some,leadingIdentifierLen_eq,checkedTo_take,
    checkedFrom_take,left_take tail,Reldex.nextTokenWord,Reldex.plainToken]
  generalize text.drop (Reldex.leadingIdentifierLen u text) = rest at after ⊢
  generalize text.take (Reldex.leadingIdentifierLen u text) = word
  cases quoted : startsWith rest ['\''] with
  | false => simp [Lexed.scanned,plainToken]
  | true =>
    obtain ⟨later,rfl⟩ := isPrefixOf_iff_prefix.mp quoted
    rw [singleton_append] at after ⊢
    have body := tail_cons after
    cases alternative : wordIn d.quoting.alternativeQuotePrefixes word with
    | true =>
      cases later with
      | nil => simp [left_bump after,left_bump_end,Lexed.scanned,plainToken]
      | cons delimiter content =>
        have inside := tail_cons body
        simp [left_bump after,left_bump body,scanQString_left (closingDelimiter delimiter) inside (left_fuel inside),
          Lexed.scanned,resume,Reldex.resume]
    | false =>
      cases national : wordIn d.quoting.nationalStringPrefixes word with
      | true =>
        simp [left_bump after,scanSimpleQuoted_left '\'' body (left_fuel body),Lexed.scanned,resume,Reldex.resume]
      | false => simp [Lexed.scanned,plainToken]

section
variable (tail : ch :: after <:+ whole)
include tail

theorem nextTokenOther_left : nextTokenOther u d ch (left whole (ch :: after)) =
      some (Lexed.scanned whole (Reldex.nextTokenOther u d (ch :: after) ch after)) := by
  have digit : ((after[0]?).map Char.isDigit).getD false = startsWithDigit after := by cases after <;> rfl
  simp only [nextTokenOther,left_rest tail,left_peek2 tail,bind_eq_bind,bind_some,getElem?_cons_succ,
    digit,Reldex.nextTokenOther]
  split
  · rename_i range
    have two : len ['.','.'] = 2 := rfl
    have moved := left_past tail range
    rw [two] at moved
    simp [moved,Lexed.scanned,plainToken,Reldex.plainToken]
  split
  · simp [scanNumber_left tail,Lexed.scanned,plainToken]
  have bind : (if (ch == ':' && d.bindVariables) = true then bindVariableLen u (ch :: after) else pure none) =
      some ((if ch == ':' && d.bindVariables then Reldex.bindVariableLen u after else none).map
        fun size => len ((ch :: after).take size)) := by
    split
    · rename_i colon
      obtain rfl : ch = ':' := by simp_all
      exact bindVariableLen_eq u after
    · rfl
  have substitution : (if (ch == '&' && d.substitutionVariables) = true then substitutionVariableLen u (ch :: after)
      else pure none) =
      some ((if ch == '&' && d.substitutionVariables then Reldex.substitutionVariableLen u after else none).map
        fun size => len ((ch :: after).take size)) := by
    split
    · rename_i ampersand
      obtain rfl : ch = '&' := by simp_all
      exact substitutionVariableLen_eq u after
    · rfl
  rw [bind,substitution]
  cases (if ch == ':' && d.bindVariables then Reldex.bindVariableLen u after else none) with
  | some size => simp [left_take tail,Lexed.scanned,plainToken,Reldex.plainToken]
  | none =>
    cases (if ch == '&' && d.substitutionVariables then Reldex.substitutionVariableLen u after else none) with
    | some size => simp [left_take tail,Lexed.scanned,plainToken,Reldex.plainToken]
    | none =>
      cases found : twoCharOperators.find? (startsWith (ch :: after)) with
      | some operator =>
        have starts : startsWith (ch :: after) operator = true := find?_some found
        have fits := (List.isPrefixOf_iff_prefix.mp starts).length_le
        simp [advanceByChars_left tail _ fits,Lexed.scanned,plainToken,Reldex.plainToken]
      | none => simp [left_bump tail,Lexed.scanned,plainToken,Reldex.plainToken]

theorem nextTokenNormal_left : nextTokenNormal u d atLineStart (left whole (ch :: after)) =
      some (Lexed.scanned whole (Reldex.nextTokenNormal u d atLineStart (ch :: after))) := by
  have rest := tail_cons tail
  simp only [nextTokenNormal,left_peek tail,bind_eq_bind,bind_some,getElem?_cons_zero,Reldex.nextTokenNormal]
  split
  · simp [skipWhile_left _ tail (left_fuel tail),Lexed.scanned]
  rw [nextTokenComment_left tail,bind_some]
  cases Reldex.nextTokenComment u d atLineStart (ch :: after) with
  | some lexed => rfl
  | none =>
    simp only [map_none,nextTokenDirective_left tail,bind_some]
    by_cases directive : 0 < directiveLen u d (ch :: after)
    · simp only [directive,↓reduceIte]
      rfl
    simp only [directive,↓reduceIte]
    by_cases double : ch = '"'
    · subst double
      simp [left_bump tail,scanSimpleQuoted_left '"' rest (left_fuel rest),Lexed.scanned,resume,Reldex.resume]
    by_cases single : ch = '\''
    · subst single
      simp [left_bump tail,scanSimpleQuoted_left '\'' rest (left_fuel rest),Lexed.scanned,resume,Reldex.resume]
    simp only [beq_iff_eq,double,single,↓reduceIte]
    split
    · exact nextTokenWord_left tail
    · exact nextTokenOther_left tail

theorem nextToken_left (mode : Mode) :
    nextToken u d mode atLineStart (left whole (ch :: after)) =
      some (Lexed.scanned whole (Reldex.nextToken u d mode atLineStart (ch :: after))) := by
  cases mode with
  | normal => exact nextTokenNormal_left tail
  | blockComment =>
    rw [nextToken,scanBlockComment_left _ tail (left_fuel tail)]
    rfl
  | singleQuoted =>
    rw [nextToken,scanSimpleQuoted_left _ tail (left_fuel tail)]
    rfl
  | doubleQuoted =>
    rw [nextToken,scanSimpleQuoted_left _ tail (left_fuel tail)]
    rfl
  | qString closing =>
    rw [nextToken,scanQString_left _ tail (left_fuel tail)]
    rfl

end

theorem left_atEnd (tail : text <:+ whole) : (left whole text).atEnd = text.isEmpty := by
  obtain ⟨front,rfl⟩ := tail
  cases text with
  | nil => simp [left,Cursor.atEnd]
  | cons c rest =>
    have positive := c.utf8Size_pos
    simp only [left,Cursor.atEnd,len_append,len_cons,isEmpty_cons,decide_eq_false_iff_not]
    omega

theorem tokensFrom_left (tail : text <:+ whole) (fuel : Nat) (mode : Mode) (atLineStart : Bool) :
    tokensFrom u d fuel mode atLineStart (left whole text) =
      (lexFrom u d fuel mode atLineStart text).map fun (found,final) =>
        (layout (len whole - len text) found,final) := by
  induction fuel generalizing mode atLineStart text with
  | zero => cases text <;> simp [tokensFrom,left_atEnd tail,lexFrom,layout]
  | succ fuel ih =>
    cases text with
    | nil => simp [tokensFrom,left_atEnd tail,lexFrom,layout]
    | cons ch after =>
      have shorter : (Reldex.nextToken u d mode atLineStart (ch :: after)).rest <:+ ch :: after := nextToken_suffix mode _
      simp only [tokensFrom,left_atEnd tail,isEmpty_cons,Bool.false_eq_true,↓reduceIte,nextToken_left tail,
        bind_eq_bind,bind_some,lexFrom,Lexed.scanned]
      generalize Reldex.nextToken u d mode atLineStart (ch :: after) = lexed at shorter ⊢
      rw [ih (shorter.trans tail)]
      cases lexFrom u d fuel lexed.mode lexed.atLineStart lexed.rest with
      | none => rfl
      | some result =>
        -- the token ends where the next one starts
        have stop : len whole - len (ch :: after) + len (consumed (ch :: after) lexed.rest) =
            len whole - len lexed.rest := by
          have read := congrArg len (consumed_append shorter)
          obtain ⟨front,rfl⟩ := tail
          simp only [len_append] at read ⊢
          omega
        simp only [map_some,bind_some,layout,stop]
        rfl

theorem left_new (text : Text) : left text text = Cursor.new text := by simp [left,Cursor.new]

theorem tokenizeBlock_eq (text : Text) (state : Mode) :
    tokenizeBlock u d text state = Reldex.tokenizeBlock u d state text := by
  rw [tokenizeBlock,← left_new]
  have loop := tokensFrom_left (u := u) (d := d) (suffix_refl text) (text.length + 1) state (state == .normal)
  rw [Nat.sub_self] at loop
  exact loop

theorem layout_shift (pos start : Nat) (lexemes : List Lexeme) :
    (layout start lexemes).map (shift pos) = layout (start + pos) lexemes := by
  induction lexemes generalizing start with
  | nil => rfl
  | cons l rest ih => simp [layout,shift,ih,Nat.add_right_comm]

theorem tokenizeLines_eq (pos : Nat) (state : Mode) (lines : List Text) :
    tokenizeLines u d pos state lines = (lexLines u d state lines).map fun (found,final) => (layout pos found,final) := by
  induction lines generalizing pos state with
  | nil => rfl
  | cons line lines ih =>
    simp only [tokenizeLines,tokenizeBlock_eq,Reldex.tokenizeBlock]
    cases lexed : lexBlock u d state line with
    | none => cases lines <;> simp [lexLines,lexed]
    | some result =>
      obtain ⟨first,carried⟩ := result
      cases lines with
      | nil => simp [lexLines,lexed,layout_shift]
      | cons next lines =>
        simp only [map_some,bind_eq_bind,bind_some,isEmpty_cons,Bool.false_eq_true,↓reduceIte,ih,
          lexLines,lexed,layout_shift,Nat.zero_add]
        cases lexLines u d carried (next :: lines) with
        | none => rfl
        | some later =>
          have newline : '\n'.utf8Size = 1 := rfl
          simp [layout_append,layout,lexFrom_flat lexed,lineBreak,newline]

theorem markLast_layout (pos : Nat) (lexemes : List Lexeme) : markLast (layout pos lexemes) = layout pos (markOpen lexemes) := by
  fun_induction markOpen lexemes generalizing pos with
  | case1 => rfl
  | case2 last => rfl
  | case3 first next rest ih =>
    simpa [layout,markLast] using ih _

theorem tokenize_eq (text : Text) : tokenize u d text = Reldex.tokenize u d text := by
  simp only [tokenize,tokenizeLines_eq,Reldex.tokenize,lexemes]
  cases lexLines u d .normal (text.splitOn '\n') with
  | none => rfl
  | some result =>
    simp only [map_some,bind_eq_bind,bind_some]
    split <;> simp [markLast_layout]

end Reldex.Scanning
