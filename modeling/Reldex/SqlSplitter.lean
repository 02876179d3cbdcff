import Reldex.SqlLexer
import Reldex.Turn

/-! The statement splitter. A token index of the source is modelled by the tokens from
that index on. Depths, lines and columns wrap like the `i32` and `u32` of a release
build. The two loops that jump forward run on fuel: a turn takes at least one token, so
one more than the tokens left is enough. -/
namespace Reldex

inductive StatementKind where
  | plain
  | block
  deriving DecidableEq, Repr

inductive EndedBy where
  | terminator
  | slashLine
  | inferredBlockEnd
  | endOfInput
  deriving DecidableEq, Repr

structure StatementSpan where
  contentStart : Nat
  contentEnd : Nat
  fullEnd : Nat
  startLine : Nat
  startColumn : Nat
  kind : StatementKind
  endedBy : EndedBy
  terminated : Bool
  deriving DecidableEq, Repr

def StatementSpan.content (span : StatementSpan) (text : Text) : Option Text :=
  checkedSlice text span.contentStart span.contentEnd

def StatementSpan.full (span : StatementSpan) (text : Text) : Option Text :=
  checkedSlice text span.contentStart span.fullEnd

def isWord (kind : TokenKind) : Bool := kind == .keyword || kind == .identifier
def isTrivial (kind : TokenKind) : Bool := kind == .whitespace || kind == .comment

/-- Used only where a directive must not stop a search. -/
def isTrivialOrDirective (kind : TokenKind) : Bool := isTrivial kind || kind == .directive
def skipTrivial (tokens : List Token) : List Token := tokens.dropWhile (isTrivial ·.kind)
def Token.text (text : Text) (token : Token) : Text := slice text token.start token.stop

/-- The line around a token: what precedes it and what follows it. -/
def lineBefore (text : Text) (offset : Nat) : Text := (sliceTo text offset).rtakeWhile (· != '\n')
def lineAfter (text : Text) (offset : Nat) : Text := (sliceFrom text offset).takeWhile (· != '\n')

def isLoneSlashLine (text : Text) (token : Token) : Bool :=
  token.text text == ['/'] && (trim (lineBefore text token.start)).isEmpty && (trim (lineAfter text token.stop)).isEmpty

/-- A lone `/` line that the lexer did not hide in a string or a comment. -/
def slashLine (text : Text) (token : Token) : Bool :=
  token.kind == .operator && isLoneSlashLine text token

def trailingLineEnd (text : Text) (offset : Nat) : Nat :=
  if (sliceFrom text offset).contains '\n' then offset + len (lineAfter text offset) + 1 else len text

/-- The result of scanning one statement; `next` is where the next one is looked for. -/
structure ScanOutcome where
  contentEnd : Nat
  fullEnd : Nat
  terminated : Bool
  endedBy : EndedBy
  next : List Token
  kind : StatementKind
  deriving DecidableEq, Repr

def ranToEof (tokens : List Token) (text : Text) (kind : StatementKind) : ScanOutcome :=
  let stop := (tokens.getLast?.map Token.stop).getD (len text)
  ⟨stop,stop,false,.endOfInput,[],kind⟩

def endAtSlashLine (text : Text) (slash : Token) (kind : StatementKind) (next : List Token)
    (contentStart : Nat) : ScanOutcome :=
  ⟨max (len (trimEnd (sliceTo text slash.start))) contentStart,trailingLineEnd text slash.stop,
    true,.slashLine,next,kind⟩

section
variable (d : SqlDialect) (text : Text)

def isTerminator (token : Token) : Bool :=
  token.kind == .operator && match token.text text with
    | [c] => d.statementTerminators.contains c
    | _ => false

def isOperator (token : Token) (spelling : Text) : Bool :=
  token.kind == .operator && token.text text == spelling

def skipName (tokens : List Token) : List Token :=
  match skipTrivial tokens with
  | [] => []
  | name :: rest => if isWord name.kind then skipTrivial rest else name :: rest

def skipOperator (spelling : Text) (tokens : List Token) : Option (List Token) :=
  match tokens with
  | [] => none
  | token :: rest => if isOperator text token spelling then some rest else none

/-- One `<<label>>` at the front, past trivia. -/
def skipLabel (labels : Text × Text) (tokens : List Token) : Option (List Token) :=
  (skipOperator text labels.1 (skipTrivial tokens)).bind fun rest =>
    skipOperator text labels.2 (skipName rest)

def skipLabelsLoop (labels : Text × Text) : Nat → List Token → List Token
  | 0, tokens => tokens
  | fuel + 1, tokens =>
    match skipLabel text labels tokens with
    | none => tokens
    | some after => skipLabelsLoop labels fuel after

def skipLabels (tokens : List Token) : List Token :=
  match d.labelDelimiters with
  | none => tokens
  | some labels => skipLabelsLoop text labels tokens.length tokens

/-- How many leading words are compared with the block starters. -/
def maxLeadingWords : Nat := 12

/-- Leading words, each with the tokens after it. -/
def collectLeadingWords : Nat → List Token → List (Text × List Token)
  | 0, _ => []
  | _ + 1, [] => []
  | left + 1, token :: rest =>
    if isWord token.kind then (token.text text,rest) :: collectLeadingWords left rest
    else if isTrivialOrDirective token.kind then collectLeadingWords (left + 1) rest
    else []

def phraseMatches (phrase : Phrase) (words : List (Text × α)) : Bool :=
  phrase.length ≤ words.length && (phrase.zip words).all fun (expected,word,_) => eqIgnoreAsciiCase expected word

def matchPhrase (options : List Phrase) (words : List (Text × α)) : Option Nat :=
  (options.find? (phraseMatches · words)).map List.length

def matchSlots : List KeywordSlot → List (Text × α) → Nat → Option Nat
  | [], _, taken => some taken
  | .required options :: slots, words, taken =>
    match matchPhrase options (words.drop taken) with
    | none => none
    | some count => matchSlots slots words (taken + count)
  | .optional options :: slots, words, taken =>
    match matchPhrase options (words.drop taken) with
    | none => matchSlots slots words taken
    | some count => matchSlots slots words (taken + count)

/-- What follows the last keyword of the starter. -/
def matchesBlockStarter (starter : BlockStarter) (words : List (Text × α)) (start : α) : Option α :=
  (matchSlots starter.slots words 0).map fun taken =>
    match taken with
    | 0 => start
    | last + 1 => ((words[last]?).map Prod.snd).getD start

/-- Words of the phrase in order, with trivia between them only. -/
def peekPhraseMatches : Phrase → List Token → Bool
  | [], _ => true
  | expected :: phrase, token :: rest =>
    isWord token.kind && eqIgnoreAsciiCase expected (token.text text) && peekPhraseMatches phrase (skipTrivial rest)
  | _ :: _, [] => false

/-- Both lists reversed: the phrase ends at the first token of `behind`. -/
def endsWithReversed : Phrase → List Token → Bool
  | [], _ => true
  | expected :: phrase, behind =>
    match skipTrivial behind with
    | [] => false
    | token :: behind =>
      isWord token.kind && eqIgnoreAsciiCase expected (token.text text) &&
        endsWithReversed phrase behind

/-- The tokens up to the one before `after`, last first. -/
def behind (tokens after : List Token) : List Token := (consumed tokens after).reverse

def endsWithPhrase (tokens after : List Token) (phrase : Phrase) : Bool :=
  endsWithReversed text phrase.reverse (behind tokens after)

/-- A body intro word that completes no exception; `after` follows the word. -/
def isBodyIntro (tokens : List Token) (word : Text) (after : List Token) : Bool :=
  wordIn d.bodyIntroKeywords word && !d.bodyIntroExceptions.any (endsWithPhrase text tokens after)

def isCallSpec (after : List Token) : Bool :=
  d.callSpecPhrases.any (peekPhraseMatches text · (skipTrivial after))

/-- The first lone `/` line past trivia and directives, and what follows it. -/
def followingSlash : List Token → Option (Token × List Token)
  | [] => none
  | token :: rest =>
    if isTrivialOrDirective token.kind then followingSlash rest
    else if slashLine text token then some (token,rest) else none

def finishWithMaybeSlash (contentEnd semiEnd : Nat) (next : List Token) (kind : StatementKind) :
    ScanOutcome :=
  match (if d.slashTerminatesBlock then followingSlash text next else none) with
  | some (slash,rest) =>
    ⟨contentEnd,trailingLineEnd text slash.stop,true,.slashLine,rest,kind⟩
  | none => ⟨contentEnd,semiEnd,d.blockMayEndWithoutSlash,.inferredBlockEnd,next,kind⟩

variable (tokens : List Token) (contentStart : Nat)

def scanPlain : List Token → ScanOutcome
  | [] => ranToEof tokens text .plain
  | token :: rest =>
    if d.slashTerminatesPlain && slashLine text token then
      endAtSlashLine text token .plain rest contentStart
    else if isTerminator d text token then
      ⟨token.start,token.stop,true,.terminator,rest,.plain⟩
    else scanPlain rest

def scanOpaqueSource : List Token → ScanOutcome
  | [] => ranToEof tokens text .block
  | token :: rest =>
    if slashLine text token then endAtSlashLine text token .block rest contentStart
    else scanOpaqueSource rest

def parenChange (token : Token) : Int32 :=
  if isOperator text token ['('] then 1 else if isOperator text token [')'] then -1 else 0

def scanParenDelimited : Int32 → List Token → ScanOutcome
  | _, [] => ranToEof tokens text .block
  | parenDepth, token :: rest =>
    if d.slashTerminatesBlock && slashLine text token then
      endAtSlashLine text token .block rest contentStart
    else if parenChange text token ≠ 0 then
      scanParenDelimited (parenDepth + parenChange text token) rest
    else if parenDepth ≤ 0 && isTerminator d text token then
      finishWithMaybeSlash d text token.start token.stop rest .block
    else scanParenDelimited parenDepth rest

/-- The tail of a call specification: to its terminator, or to the end. -/
def skipToTerminator : List Token → List Token
  | [] => []
  | token :: rest => if isTerminator d text token then rest else skipToTerminator rest

/-- Where a member header ends, and whether it owes a body. Lone `/` lines are not
looked for here. -/
def scanHeader : Int32 → List Token → List Token × Bool
  | _, [] => ([],false)
  | parenDepth, token :: rest =>
    if token.kind == .operator then
      if parenChange text token ≠ 0 then scanHeader (parenDepth + parenChange text token) rest
      else if parenDepth ≤ 0 && isTerminator d text token then (rest,false)
      else scanHeader parenDepth rest
    else if parenDepth ≤ 0 && isWord token.kind && isBodyIntro d text tokens (token.text text) rest then
      if isCallSpec d text rest then (skipToTerminator d text (skipTrivial rest),false)
      else (rest,true)
    else scanHeader parenDepth rest

def scanToTerminator : List Token → ScanOutcome
  | [] => ranToEof tokens text .block
  | token :: rest =>
    if d.slashTerminatesBlock && slashLine text token then
      endAtSlashLine text token .block rest contentStart
    else if isTerminator d text token then
      finishWithMaybeSlash d text token.start token.stop rest .block
    else scanToTerminator rest

/-- Words after an `END`, through its terminator when that comes next. -/
def skipEndQualifier : List Token → List Token
  | [] => []
  | token :: rest =>
    if isTrivial token.kind then skipEndQualifier rest
    else if isTerminator d text token then rest
    else if isWord token.kind then skipEndQualifier rest
    else token :: rest

def skipWords : List Token → List Token
  | [] => []
  | token :: rest =>
    if isTrivial token.kind || isWord token.kind then skipWords rest else token :: rest

/-- `after` follows the outermost `END`. -/
def finishStructured (after : List Token) : ScanOutcome :=
  match skipWords after with
  | [] => ranToEof tokens text .block
  | terminator :: rest =>
    if isTerminator d text terminator then
      finishWithMaybeSlash d text terminator.start terminator.stop rest .block
    else ranToEof tokens text .block

structure StructuredState where
  rest : List Token
  depth : Int32
  pendingBodies : UInt32
  absorbedBody : Bool
  isCompound : Bool
  parenDepth : Int32
  deriving DecidableEq, Repr

/-- Nothing of this frame's own body has been seen or promised yet. -/
def StructuredState.awaitsBody (s : StructuredState) : Bool :=
  s.depth == 0 && s.pendingBodies == 0 && !s.absorbedBody

def isHeaderWord (compound : Bool) (word : Text) : Bool :=
  wordIn d.subprogramHeaderKeywords word || (compound && wordIn d.sectionHeaderStarters word)

/-- The body opener fulfils a debt, is absorbed as the frame's own body, or nests. -/
def openBody (s : StructuredState) : StructuredState :=
  if 0 < s.pendingBodies && s.depth == 0 then
    { s with pendingBodies := s.pendingBodies - 1, depth := s.depth + 1 }
  else if s.depth == 0 && !s.absorbedBody then { s with absorbedBody := true }
  else { s with depth := s.depth + 1 }

/-- A word outside parentheses; `rest` follows it. -/
def structuredWord (s : StructuredState) (token : Token) (rest : List Token) :
    Turn StructuredState ScanOutcome :=
  let word := token.text text
  let s := { s with isCompound := s.isCompound ||
    d.sectionedBodyMarker.any (peekPhraseMatches text · (token :: rest)) }
  if s.awaitsBody && wordIn d.bodyLessMarkers word then
    .done (scanToTerminator d text tokens contentStart rest)
  else if s.awaitsBody && isBodyIntro d text tokens word rest && isCallSpec d text rest then
    .done (scanToTerminator d text tokens contentStart (skipTrivial rest))
  else if isHeaderWord d s.isCompound word then
    let header := scanHeader d text tokens 0 rest
    .next { s with rest := header.1, pendingBodies := s.pendingBodies + if header.2 then 1 else 0 }
  else if eqIgnoreAsciiCase word d.blockEndKeyword then
    if s.depth == 0 then .done (finishStructured d text tokens rest)
    else .next { s with depth := s.depth - 1, rest := skipEndQualifier d text rest }
  else if eqIgnoreAsciiCase word d.blockBodyOpener then .next { openBody s with rest := rest }
  else if wordIn d.blockNestingOpeners word then .next { s with depth := s.depth + 1, rest := rest }
  else .next { s with rest := rest }

def structuredTurn (s : StructuredState) : Turn StructuredState ScanOutcome :=
  match s.rest with
  | [] => .done (ranToEof tokens text .block)
  | token :: rest =>
    if d.slashTerminatesBlock && slashLine text token then
      .done (endAtSlashLine text token .block rest contentStart)
    else if token.kind == .operator then
      .next { s with parenDepth := s.parenDepth + parenChange text token, rest := rest }
    else if !isWord token.kind || 0 < s.parenDepth then .next { s with rest := rest }
    else structuredWord d text tokens contentStart s token rest

def structuredStart (starter : BlockStarter) (rest : List Token) : StructuredState :=
  ⟨rest,0,0,starter.opensBody,false,0⟩

def scanStructured (starter : BlockStarter) (rest : List Token) : ScanOutcome :=
  (Turn.run (structuredTurn d text tokens contentStart) (rest.length + 1)
    (structuredStart starter rest)).getD (ranToEof tokens text .block)

/-- The first starter that matches, with the tokens after its keywords. -/
def matchedStarter (start : List Token) : Option (BlockStarter × List Token) :=
  let labelSkipped := skipLabels d text start
  let words := collectLeadingWords text maxLeadingWords labelSkipped
  d.blockStarters.findSome? fun starter =>
    (matchesBlockStarter starter words labelSkipped).map (starter,·)

def scanStatement (start : List Token) : ScanOutcome :=
  match matchedStarter d text start with
  | some (starter,resume) =>
    match starter.kind with
    | .structured => scanStructured d text tokens contentStart starter resume
    | .opaqueSource => scanOpaqueSource text tokens contentStart resume
    | .parenDelimited => scanParenDelimited d text tokens contentStart 0 resume
  | none => scanPlain d text tokens contentStart start

end

structure PositionCursor where
  pos : Nat
  line : Nat
  column : Nat
  deriving DecidableEq, Repr

/-- Addition of `u32` in the release build. -/
def wrapU32 (n : Nat) : Nat := n % 2^32

def PositionCursor.step (cursor : PositionCursor) (c : Char) : PositionCursor :=
  if c == '\n' then { cursor with line := wrapU32 (cursor.line + 1), column := 1 }
  else { cursor with column := wrapU32 (cursor.column + 1) }

def PositionCursor.advanceTo (cursor : PositionCursor) (text : Text) (target : Nat) : PositionCursor :=
  { (slice text cursor.pos target).foldl step cursor with pos := target }

structure SplitState where
  rest : List Token
  cursor : PositionCursor
  spans : List StatementSpan
  deriving DecidableEq, Repr

def ScanOutcome.span (o : ScanOutcome) (start : PositionCursor) : StatementSpan :=
  ⟨start.pos,o.contentEnd,o.fullEnd,start.line,start.column,o.kind,o.endedBy,o.terminated⟩

/-- A lone `/` line with nothing pending opens nothing and closes nothing. -/
def idleSlash (d : SqlDialect) (text : Text) (first : Token) : Bool :=
  (d.slashTerminatesBlock || d.slashTerminatesPlain) && slashLine text first

def splitTurn (d : SqlDialect) (text : Text) (tokens : List Token) (s : SplitState) :
    Turn SplitState (List StatementSpan) :=
  match skipTrivial s.rest with
  | [] => .done s.spans
  | first :: rest =>
    if idleSlash d text first then .next { s with rest := rest }
    else
      let start := s.cursor.advanceTo text first.start
      let outcome := scanStatement d text tokens first.start (first :: rest)
      .next ⟨outcome.next,start.advanceTo text outcome.fullEnd,s.spans ++ [outcome.span start]⟩

def splitStart (tokens : List Token) : SplitState := ⟨tokens,⟨0,1,1⟩,[]⟩

def splitTokens (d : SqlDialect) (text : Text) (tokens : List Token) : List StatementSpan :=
  (Turn.run (splitTurn d text tokens) (tokens.length + 1) (splitStart tokens)).getD []

/-- `none` when the lexer does not return. -/
def splitStatements (u : UnicodeTables) (d : SqlDialect) (text : Text) :
    Option (List StatementSpan) :=
  (tokenize u d text).map (splitTokens d text)

def floorCharBoundary (text : Text) : Nat → Nat
  | 0 => 0
  | index + 1 => if isCharBoundary text (index + 1) then index + 1 else floorCharBoundary text index

/-- The last span with the greatest end, as `max_by_key` picks it. -/
def latest : List StatementSpan → Option StatementSpan
  | [] => none
  | span :: rest =>
    match latest rest with
    | none => some span
    | some best => if span.fullEnd ≤ best.fullEnd then some best else some span

def statementAt (u : UnicodeTables) (d : SqlDialect) (text : Text) (offset : Nat) :
    Option (Option StatementSpan) :=
  (splitStatements u d text).map fun spans =>
    let offset := floorCharBoundary text (min offset (len text))
    match spans.find? (fun span => span.contentStart ≤ offset && offset ≤ span.fullEnd) with
    | some hit => some hit
    | none =>
      match latest (spans.filter (·.fullEnd ≤ offset)) with
      | none => none
      | some preceding =>
        if (slice text preceding.fullEnd offset).contains '\n' then none else some preceding

end Reldex
