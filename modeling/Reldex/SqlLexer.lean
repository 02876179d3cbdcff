import Reldex.SqlDialect

/-! The lexer. `lexFrom` is the source's token loop; a lexeme is one of its turns, with
the characters read and the mode before and after. Tokens are lexemes laid out from
byte offset zero. -/
namespace Reldex

inductive TokenKind where
  | whitespace | keyword | identifier | quotedIdentifier | string | number | comment
  | operator | bindVariable | substitutionVariable | directive | error
  deriving DecidableEq, Repr

/-- What the lexer is inside of. A q-string remembers its closing delimiter. -/
inductive Mode where
  | normal
  | blockComment
  | singleQuoted
  | doubleQuoted
  | qString (closing : Char)
  deriving DecidableEq, Repr

structure Token where
  kind : TokenKind
  start : Nat
  stop : Nat
  deriving DecidableEq, Repr

/-- A byte-order mark is not White_Space but separates tokens too. -/
def isLexerWhitespace (c : Char) : Bool := isWhitespace c || c == '\ufeff'

section
variable (u : UnicodeTables)

def isIdentifierPart (c : Char) : Bool := u.isAlphanumeric c || c == '_' || c == '$' || c == '#'

/-- Characters in the identifier at the start of the text; zero when there is none. -/
def leadingIdentifierLen : Text → Nat
  | [] => 0
  | first :: rest =>
    if u.isAlphabetic first then ((first :: rest).takeWhile (isIdentifierPart u)).length else 0

/-- Reads up to and including the closing quote. A doubled quote is content. The flag
says whether the quote was found. -/
def scanSimpleQuoted (quote : Char) : Text → Bool × Text
  | [] => (false,[])
  | [c] => (c == quote,[])
  | c :: next :: rest =>
    if c == quote then
      if next == quote then scanSimpleQuoted quote rest else (true,next :: rest)
    else scanSimpleQuoted quote (next :: rest)

def scanBlockComment (close : Text) : Text → Bool × Text
  | [] => (close.isEmpty,[])
  | c :: rest =>
    if startsWith (c :: rest) close then (true,(c :: rest).drop close.length)
    else scanBlockComment close rest

/-- A q-string ends at its closing delimiter immediately followed by a quote. -/
def scanQString (closing : Char) : Text → Bool × Text
  | [] => (false,[])
  | [_] => (false,[])
  | c :: next :: rest =>
    if c == closing && next == '\'' then (true,rest) else scanQString closing (next :: rest)

def closingDelimiter (start : Char) : Char :=
  match start with
  | '[' => ']'
  | '{' => '}'
  | '<' => '>'
  | '(' => ')'
  | other => other

/-- Characters in the bind variable whose colon precedes `rest`. -/
def bindVariableLen (rest : Text) : Option Nat :=
  match rest with
  | [] => none
  | first :: after =>
    if first == '"' then
      if after.contains '"' then some (1 + 1 + (after.takeWhile (· != '"')).length + 1) else none
    else if first.isDigit then some (1 + (rest.takeWhile Char.isDigit).length)
    else if u.isAlphabetic first then
      let size := leadingIdentifierLen u rest
      if 0 < size then some (1 + size) else none
    else none

def substitutionNameLen (rest : Text) : Nat :=
  match rest with
  | [] => 0
  | c :: _ =>
    if c.isDigit then (rest.takeWhile Char.isDigit).length
    else if u.isAlphabetic c then leadingIdentifierLen u rest else 0

/-- Characters in the substitution variable whose first `&` precedes `after`. -/
def substitutionVariableLen (after : Text) : Option Nat :=
  let prefixLen := if startsWith after ['&'] then 2 else 1
  let rest := after.drop (prefixLen - 1)
  let nameLen := substitutionNameLen u rest
  if nameLen == 0 then none
  else some (prefixLen + nameLen + if startsWith (rest.drop nameLen) ['.'] then 1 else 0)

def twoCharOperators : List Text :=
  phrase [":=","<=",">=","<>","!=","^=","||","**","=>","<<",">>"]

def startsWithDigit (text : Text) : Bool :=
  match text with
  | [] => false
  | c :: _ => c.isDigit

def skipSign : Text → Text
  | [] => []
  | sign :: rest => if sign == '+' || sign == '-' then rest else sign :: rest

/-- An exponent is read only when a digit follows its optional sign. -/
def maybeExponent (text : Text) : Text :=
  match text with
  | [] => []
  | e :: rest =>
    if (e == 'e' || e == 'E') && startsWithDigit (skipSign rest) then
      (skipSign rest).dropWhile Char.isDigit
    else text

def scanNumber (text : Text) : Text :=
  match text with
  | '.' :: rest => maybeExponent (rest.dropWhile Char.isDigit)
  | _ =>
    match text.dropWhile Char.isDigit with
    | '.' :: rest =>
      if startsWithDigit rest then maybeExponent (rest.dropWhile Char.isDigit)
      else maybeExponent ('.' :: rest)
    | other => maybeExponent other

/-- One token: its kind, the mode after it, what is left and the line-start flag. -/
structure Lexed where
  kind : TokenKind
  mode : Mode
  rest : Text
  atLineStart : Bool

/-- The rest of a construct that was open, given how its scan went. -/
def resume (kind : TokenKind) (mode : Mode) (scanned : Bool × Text) : Lexed :=
  ⟨kind,if scanned.1 then .normal else mode,scanned.2,false⟩

def plainToken (kind : TokenKind) (text : Text) (size : Nat) : Lexed :=
  ⟨kind,.normal,text.drop size,false⟩

variable (d : SqlDialect)

def lineCommentWordAt (atLineStart : Bool) (text : Text) : Bool :=
  match text with
  | [] => false
  | c :: _ => !d.comments.lineCommentWords.isEmpty && atLineStart && u.isAlphabetic c &&
      wordIn d.comments.lineCommentWords (text.take (leadingIdentifierLen u text))

/-- Characters in the directive at the start of the text; zero when there is none. -/
def directiveLen (text : Text) : Nat :=
  match d.directivePrefix, text with
  | some mark, c :: rest =>
    if c == mark then
      let size := if startsWith rest [mark] then 2 else 1
      let name := leadingIdentifierLen u (text.drop size)
      if 0 < name then size + name else 0
    else 0
  | _, _ => 0

def nextTokenWord (text : Text) : Lexed :=
  let size := leadingIdentifierLen u text
  let word := text.take size
  let after := text.drop size
  if startsWith after ['\''] && wordIn d.quoting.alternativeQuotePrefixes word then
    match after.drop 1 with
    | delimiter :: rest =>
      let closing := closingDelimiter delimiter
      resume .string (.qString closing) (scanQString closing rest)
    | [] => ⟨.error,.normal,[],false⟩
  else if startsWith after ['\''] && wordIn d.quoting.nationalStringPrefixes word then
    resume .string .singleQuoted (scanSimpleQuoted '\'' (after.drop 1))
  else plainToken (if d.isKeyword word then .keyword else .identifier) text size

/-- A token that starts with punctuation, a digit or anything else. -/
def nextTokenOther (text : Text) (ch : Char) (after : Text) : Lexed :=
  if startsWith text ['.','.'] then plainToken .operator text 2
  else if ch.isDigit || (ch == '.' && startsWithDigit after) then
    ⟨.number,.normal,scanNumber text,false⟩
  else
    match (if ch == ':' && d.bindVariables then bindVariableLen u after else none) with
    | some size => plainToken .bindVariable text size
    | none =>
      match (if ch == '&' && d.substitutionVariables then substitutionVariableLen u after else none) with
      | some size => plainToken .substitutionVariable text size
      | none =>
        match twoCharOperators.find? (startsWith text) with
        | some operator => plainToken .operator text operator.length
        | none => plainToken .operator text 1

/-- Comments first, in the source's order. -/
def nextTokenComment (atLineStart : Bool) (text : Text) : Option Lexed :=
  let toLineEnd (text : Text) : Lexed := ⟨.comment,.normal,text.dropWhile (· != '\n'),false⟩
  match d.comments.lineComment.filter (startsWith text) with
  | some mark => some (toLineEnd (text.drop mark.length))
  | none =>
    match d.comments.blockComment.filter (startsWith text ·.1) with
    | some (start,stop) =>
      some (resume .comment .blockComment (scanBlockComment stop (text.drop start.length)))
    | none =>
      if lineCommentWordAt u d atLineStart text then
        some (toLineEnd (text.drop (leadingIdentifierLen u text)))
      else none

def nextTokenNormal (atLineStart : Bool) (text : Text) : Lexed :=
  match text with
  | [] => ⟨.error,.normal,[],atLineStart⟩
  | ch :: after =>
    if isLexerWhitespace ch then
      ⟨.whitespace,.normal,text.dropWhile isLexerWhitespace,atLineStart⟩
    else
      match nextTokenComment u d atLineStart text with
      | some lexed => lexed
      | none =>
        if 0 < directiveLen u d text then plainToken .directive text (directiveLen u d text)
        else if ch == '"' then
          resume .quotedIdentifier .doubleQuoted (scanSimpleQuoted '"' after)
        else if ch == '\'' then resume .string .singleQuoted (scanSimpleQuoted '\'' after)
        else if u.isAlphabetic ch then nextTokenWord u d text
        else nextTokenOther u d text ch after

/-- The closing delimiter is read from the dialect on every call. -/
def blockCommentClose : Text := (d.comments.blockComment.map Prod.snd).getD "*/".toList

def nextToken (mode : Mode) (atLineStart : Bool) (text : Text) : Lexed :=
  match mode with
  | .normal => nextTokenNormal u d atLineStart text
  | .blockComment => resume .comment .blockComment (scanBlockComment (blockCommentClose d) text)
  | .singleQuoted => resume .string .singleQuoted (scanSimpleQuoted '\'' text)
  | .doubleQuoted => resume .quotedIdentifier .doubleQuoted (scanSimpleQuoted '"' text)
  | .qString closing => resume .string (.qString closing) (scanQString closing text)

end

/-- One turn of the token loop: what was read, and the modes around it. -/
structure Lexeme where
  kind : TokenKind
  text : Text
  entry : Mode
  leave : Mode
  deriving DecidableEq, Repr

variable (u : UnicodeTables) (d : SqlDialect)

/-- The token loop over one block. `none` is a loop that does not end; a turn that
reads nothing in normal mode repeats for ever. -/
def lexFrom : Nat → Mode → Bool → Text → Option (List Lexeme × Mode)
  | _, mode, _, [] => some ([],mode)
  | 0, _, _, _ :: _ => none
  | fuel + 1, mode, atLineStart, c :: cs =>
    let lexed := nextToken u d mode atLineStart (c :: cs)
    (lexFrom fuel lexed.mode lexed.atLineStart lexed.rest).map fun (lexemes,final) =>
      (⟨lexed.kind,consumed (c :: cs) lexed.rest,mode,lexed.mode⟩ :: lexemes,final)

/-- One block from the carried mode. Only the first token of a block that starts in
normal mode is at the start of a line. -/
def lexBlock (mode : Mode) (text : Text) : Option (List Lexeme × Mode) :=
  lexFrom u d (text.length + 1) mode (mode == .normal) text

/-- The line break between two blocks; it leaves the carried mode as it is. -/
def lineBreak (mode : Mode) : Lexeme := ⟨.whitespace,['\n'],mode,mode⟩

def lexLines : Mode → List Text → Option (List Lexeme × Mode)
  | mode, [] => some ([],mode)
  | mode, [line] => lexBlock u d mode line
  | mode, line :: next :: lines =>
    (lexBlock u d mode line).bind fun (first,carried) =>
      (lexLines carried (next :: lines)).map fun (rest,final) =>
        (first ++ lineBreak carried :: rest,final)

/-- Something still open when the document ends makes its last token an error. -/
def markOpen : List Lexeme → List Lexeme
  | [] => []
  | [last] => [{ last with kind := .error }]
  | first :: next :: rest => first :: markOpen (next :: rest)

/-- The lexemes of a whole document, lexed line by line. -/
def lexemes (text : Text) : Option (List Lexeme) :=
  (lexLines u d .normal (text.splitOn '\n')).map fun (lexemes,final) =>
    if final == .normal then lexemes else markOpen lexemes

def layout : Nat → List Lexeme → List Token
  | _, [] => []
  | pos, l :: rest => ⟨l.kind,pos,pos + len l.text⟩ :: layout (pos + len l.text) rest

def tokenizeBlock (mode : Mode) (text : Text) : Option (List Token × Mode) :=
  (lexBlock u d mode text).map fun (lexemes,final) => (layout 0 lexemes,final)

def tokenize (text : Text) : Option (List Token) := (lexemes u d text).map (layout 0)

end Reldex
