import Reldex.StatementKeywords

/-! Trigger DDL on its way to the server: the punctuation of the client is removed, and a body
in which the Oracle crate would see a placeholder is sent as a string literal, which its scan
does not look into and from which the server reads the body back. -/
namespace Reldex.OracleThin
open List Bool

section
variable (u : UnicodeTables)

def maxWrappedBytes : Nat := 32767

/-- Alternative-quote delimiters, tried in order. -/
def delimiters : List Char := ['[','{','<','(','!','~','^','#','|','+','@','$']

/-- A kind of DDL whose body the Oracle crate's scan misreads. -/
inductive Rewritable where
  | trigger
  deriving DecidableEq, Repr

def Rewritable.what : Rewritable → String
  | .trigger => "CREATE TRIGGER"

def Rewritable.detect (sql : Text) : Option Rewritable :=
  let (first,words) := (Keywords.new sql).next u
  if first != some "CREATE".toList then none
  else
    let (word,words) := words.next u
    let (replace,afterReplace) := words.next u
    if word == some "OR".toList && replace != some "REPLACE".toList then none
    else
      let (word,words) := if word == some "OR".toList then afterReplace.next u else (word,words)
      let word :=
        if word == some "EDITIONABLE".toList || word == some "NONEDITIONABLE".toList then (words.next u).1 else word
      if word == some "TRIGGER".toList then some .trigger else none

structure Rewrite where
  kind : Rewritable
  text : Text
  deriving DecidableEq, Repr

/-- What the driver decided to send in place of the text the caller submitted. -/
inductive Plan where
  | asSubmitted
  | trimmed (text : Text)
  | wrapped (rewrite : Rewrite)
  deriving DecidableEq, Repr

def Plan.text (submitted : Text) : Plan → Text
  | .asSubmitted => submitted
  | .trimmed text => text
  | .wrapped rewrite => rewrite.text

/-- Removes a trailing SQL*Plus `/` terminator line and any trailing whitespace. -/
def stripSqlplusTerminator (sql : Text) : Text :=
  let trimmed := trimEnd sql
  -- up to and including the last line break; nothing is left on a single line
  let before := trimmed.rdropWhile (· != '\n')
  if before.isEmpty then trimmed
  else if trim (trimmed.rtakeWhile (· != '\n')) == ['/'] then trimEnd before.dropLast
  else trimmed

/-- Splits off the trailing run of identifier characters. -/
def splitLastWord (text : Text) : Text × Text :=
  (text.rdropWhile (isIdentifierChar u),text.rtakeWhile (isIdentifierChar u))

/-- Whether the text ends where a PL/SQL block ends. -/
def closesAPlsqlBlock (text : Text) : Bool :=
  let text := trimEnd text
  if text.getLast? == some '"' then true
  else
    let (beforeLast,last) := splitLastWord u text
    if eqIgnoreAsciiCase last "END".toList then true
    else if last.isEmpty then false
    else eqIgnoreAsciiCase (splitLastWord u (trimEnd beforeLast)).2 "END".toList

/-- Removes a trailing statement terminator that PL/SQL would not have written. -/
def stripStatementTerminator (text : Text) : Text :=
  if text.getLast? == some ';' && !closesAPlsqlBlock u text.dropLast then trimEnd text.dropLast else text

def normalize (sql : Text) : Text := stripStatementTerminator u (stripSqlplusTerminator sql)
def closingSequence (delimiter : Char) : Text := [closing delimiter,'\'']
def doubleQuotes (body : Text) : Text := body.flatMap fun c => if c == '\'' then ['\'','\''] else [c]

def literal (body : Text) : Text :=
  match delimiters.find? fun delimiter => !decide (closingSequence delimiter <:+: body) with
  | some delimiter => 'q' :: '\'' :: delimiter :: body ++ [closing delimiter,'\'']
  | none => '\'' :: doubleQuotes body ++ ['\'']

def blockHead : Text := "BEGIN EXECUTE IMMEDIATE ".toList
def blockTail : Text := "; END;".toList
def wrap (body : Text) : Text := blockHead ++ literal body ++ blockTail

def tooLarge (kind : Rewritable) (size : Nat) : DbError :=
  .new .unsupported (s!"this {kind.what} statement is {size} bytes, and the only way this driver can submit a " ++
    "trigger body containing `:NEW` or `:OLD` is inside `EXECUTE IMMEDIATE q'…'`, whose PL/SQL string literal can " ++
    s!"be worth at most {maxWrappedBytes} bytes (upstream gap U-18: the Oracle crate reads those as bind " ++
    "placeholders and offers no way to stop it). It is the trigger text itself that has to fit; how long the " ++
    "literal is written out does not matter. Shorten the trigger — moving its body into a package procedure the " ++
    "trigger calls is the usual way — or create it with another client")

def plan (sql : Text) : Except DbError Plan :=
  match Rewritable.detect u sql with
  | none => .ok .asSubmitted
  | some kind =>
    let body := normalize u sql
    if !upstreamFindsABindPlaceholder u body then
      .ok (if len body == len sql then .asSubmitted else .trimmed body)
    else if maxWrappedBytes < len body then .error (tooLarge kind (len body))
    else .ok (.wrapped ⟨kind,wrap body⟩)

end

section

/-- How the server reads a q-string from behind its delimiter: the value, and what follows. -/
def readQString (stop : Char) : Text → Option (Text × Text)
  | [] => none
  | [_] => none
  | c :: next :: rest =>
    if c == stop && next == '\'' then some ([],rest)
    else (readQString stop (next :: rest)).map fun (value,after) => (c :: value,after)

def readQuoted : Text → Option (Text × Text)
  | [] => none
  | [c] => if c == '\'' then some ([],[]) else none
  | c :: next :: rest =>
    if c == '\'' then
      if next == '\'' then (readQuoted rest).map fun (value,after) => ('\'' :: value,after) else some ([],next :: rest)
    else (readQuoted (next :: rest)).map fun (value,after) => (c :: value,after)

def readLiteral : Text → Option (Text × Text)
  | 'q' :: '\'' :: delimiter :: rest => readQString (closing delimiter) rest
  | '\'' :: rest => readQuoted rest
  | _ => none

variable {stop : Char} {body : Text}

theorem qString_ends (quote : stop ≠ '\'') (clear : ¬ [stop,'\''] <:+: body) (rest : Text) :
    readQString stop (body ++ stop :: '\'' :: rest) = some (body,rest) ∧
      qStringLen stop (body ++ stop :: '\'' :: rest) = body.length + 1 := by
  induction body with
  | nil => simp [readQString,qStringLen]
  | cons c body ih =>
    obtain ⟨value,size⟩ := ih fun inside => clear (inside.trans (suffix_cons c body).isInfix)
    have more : ∃ next later, body ++ stop :: '\'' :: rest = next :: later ∧ ¬ (c = stop ∧ next = '\'') := by
      cases body with
      | nil => exact ⟨stop,_,rfl,fun same => quote same.2⟩
      | cons next body =>
        refine ⟨next,_,rfl,?_⟩
        rintro ⟨rfl,rfl⟩
        exact clear (prefix_append [c,'\''] body).isInfix
    obtain ⟨next,later,same,apart⟩ := more
    rw [same] at value size
    rw [cons_append,same]
    constructor
    · simp [readQString,apart,value]
    · rw [qStringLen,if_neg (by simpa using apart),size,length_cons,Nat.add_comm 1]

theorem readQuoted_doubled (body : Text) (plain : rest.head? ≠ some '\'') :
    readQuoted (doubleQuotes body ++ '\'' :: rest) = some (body,rest) := by
  induction body with
  | nil =>
    cases rest with
    | nil => rfl
    | cons c rest =>
      have other : c ≠ '\'' := by simpa using plain
      simp [doubleQuotes,readQuoted,other]
  | cons c body ih =>
    by_cases quote : c = '\''
    · subst quote
      have doubled : doubleQuotes ('\'' :: body) = '\'' :: '\'' :: doubleQuotes body := rfl
      rw [doubled,cons_append,cons_append,readQuoted,ih]
      rfl
    · have single : doubleQuotes (c :: body) = c :: doubleQuotes body := by simp [doubleQuotes,quote]
      obtain ⟨next,later,same⟩ : ∃ next later, doubleQuotes body ++ '\'' :: rest = next :: later :=
        exists_cons_of_ne_nil (by simp)
      rw [single,cons_append,same,readQuoted,if_neg (by simpa using quote),← same,ih]
      rfl

/-- A literal is a q-string whose closing sequence the body does not hold, or doubles every quote. -/
theorem literal_cases (body : Text) :
    (∃ delimiter, closing delimiter ≠ '\'' ∧ ¬ closingSequence delimiter <:+: body ∧
      literal body = 'q' :: '\'' :: delimiter :: body ++ [closing delimiter,'\'']) ∨
    literal body = '\'' :: doubleQuotes body ++ ['\''] := by
  unfold literal
  split
  · next delimiter found =>
    have quotes : ∀ delimiter ∈ delimiters, closing delimiter ≠ '\'' := by simp [delimiters,closing]
    have clear := find?_some found
    simp only [not_eq_true',decide_eq_false_iff_not] at clear
    exact .inl ⟨delimiter,quotes delimiter (mem_of_find?_eq_some found),clear,rfl⟩
  · exact .inr rfl

/-- The server reads the body back, and the rest of the block behind it. -/
theorem readLiteral_literal (body : Text) (plain : rest.head? ≠ some '\'') :
    readLiteral (literal body ++ rest) = some (body,rest) := by
  rcases literal_cases body with ⟨delimiter,quote,clear,written⟩ | written <;> rw [written]
  · have ends := (qString_ends quote clear rest).1
    simpa [readLiteral] using ends
  · have ends := readQuoted_doubled body plain
    simpa [readLiteral] using ends

end

section
variable {u : UnicodeTables} {text rest : Text} {s : BindState}

def isPlain (c : Char) : Bool := c != '\'' && c != '-' && c != '*' && c != '"' && c != ':'

theorem plain_reaches (word : Text) (plain : ∀ c ∈ word, isPlain c = true) (left : text.drop s.position = word ++ rest) :
    ∃ t, Turn.Reaches (bindTurn u text) s t ∧ text.drop t.position = rest ∧ t.lastCh = word.getLast?.getD s.lastCh := by
  induction word generalizing s with
  | nil => exact ⟨s,.refl,left,rfl⟩
  | cons c word ih =>
    obtain ⟨first,plain⟩ := forall_mem_cons.mp plain
    simp only [isPlain,and_eq_true,bne_iff_ne] at first
    have moved : bindTurn u text s = .next ⟨s.position + 1,isWhitespace c && s.lastWasString,c⟩ := by
      simp [bindTurn,left,bindMoved,first]
    obtain ⟨t,path,behind,last⟩ := ih (s := ⟨s.position + 1,isWhitespace c && s.lastWasString,c⟩) plain (drop_next left)
    refine ⟨t,.step moved path,behind,last.trans ?_⟩
    cases word <;> simp [getLast?_cons]

theorem qString_reaches (quote : closing delimiter ≠ '\'')
    (clear : ¬ closingSequence delimiter <:+: body) (q : s.lastCh.toLower = 'q')
    (left : text.drop s.position = '\'' :: delimiter :: body ++ [closing delimiter,'\''] ++ rest) :
    ∃ t, Turn.Reaches (bindTurn u text) s t ∧ text.drop t.position = rest := by
  have inside : text.drop (s.position + 1) = delimiter :: (body ++ closing delimiter :: '\'' :: rest) := by
    rw [drop_next left]
    simp
  have skips : bindMoved text '\'' s.lastCh s.position = s.position + 2 + (body.length + 1) := by
    simp [bindMoved,q,skipQString,inside,(qString_ends quote clear rest).2]
  have moved : bindTurn u text s = .next ⟨s.position + 2 + (body.length + 1) + 1,true,'\''⟩ := by
    simp [bindTurn,left,skips]
  refine ⟨_,.single moved,?_⟩
  have size : s.position + 2 + (body.length + 1) + 1 = s.position + ('\'' :: delimiter :: body ++ [closing delimiter,'\'']).length := by
    simp
    omega
  rw [size,← drop_drop,left,drop_left]

theorem doubleQuotes_clear (clear : '\'' ∉ body) : doubleQuotes body = body := by
  induction body with
  | nil => rfl
  | cons c body ih =>
    obtain ⟨other,clear⟩ := not_or.mp (mt mem_cons.mpr clear)
    have single : doubleQuotes (c :: body) = c :: doubleQuotes body := by simp [doubleQuotes,Ne.symm other]
    rw [single,ih clear]

theorem quoted_turn (noQ : s.lastCh.toLower ≠ 'q') (clear : '\'' ∉ inside)
    (left : text.drop s.position = '\'' :: (inside ++ '\'' :: rest)) :
    ∃ position, bindTurn u text s = .next ⟨position,true,'\''⟩ ∧ text.drop position = rest := by
  have plain : ∀ c ∈ inside, (c != '\'') = true := fun c member => bne_iff_ne.mpr (ne_of_mem_of_not_mem member clear)
  refine ⟨seek text '\'' (s.position + 1) + 1,?_,?_⟩
  · simp [bindTurn,left,bindMoved,noQ,skipQuoted_eq '\'' (drop_cons_lt left)]
  · rw [drop_seek,drop_next left,dropWhile_append_of_pos plain,dropWhile_cons_of_neg (by simp)]
    rfl

/-- Over an ordinary literal, each doubled quote ends one string and opens the next. -/
theorem doubled_reaches (body : Text) (noQ : s.lastCh.toLower ≠ 'q')
    (left : text.drop s.position = '\'' :: (doubleQuotes body ++ '\'' :: rest)) :
    ∃ t, Turn.Reaches (bindTurn u text) s t ∧ text.drop t.position = rest := by
  induction size : body.length using Nat.strong_induction_on generalizing body s with
  | _ n ih =>
    by_cases quote : '\'' ∈ body
    · obtain ⟨inside,later,rfl,clear⟩ := eq_append_cons_of_mem quote
      have doubled : doubleQuotes (inside ++ '\'' :: later) = inside ++ '\'' :: '\'' :: doubleQuotes later := by
        rw [doubleQuotes,flatMap_append,← doubleQuotes,doubleQuotes_clear clear]
        rfl
      rw [doubled,append_assoc,cons_append] at left
      obtain ⟨position,moved,behind⟩ := quoted_turn (u := u) noQ clear left
      obtain ⟨t,path,ended⟩ := ih later.length (by simp [← size]; omega) (s := ⟨position,true,'\''⟩) later nofun behind rfl
      exact ⟨t,.step moved path,ended⟩
    · rw [doubleQuotes_clear quote] at left
      obtain ⟨position,moved,behind⟩ := quoted_turn (u := u) noQ quote left
      exact ⟨_,.single moved,behind⟩

theorem wrap_hides (u : UnicodeTables) (body : Text) : upstreamFindsABindPlaceholder u (wrap body) = false := by
  have literal_reaches {s : BindState} (space : s.lastCh = ' ')
      (left : (wrap body).drop s.position = literal body ++ blockTail) :
      ∃ t, Turn.Reaches (bindTurn u (wrap body)) s t ∧ (wrap body).drop t.position = blockTail := by
    generalize wrap body = text at left ⊢
    rcases literal_cases body with ⟨delimiter,quote,clear,written⟩ | written <;> rw [written] at left
    · obtain ⟨t,path,behind,last⟩ := plain_reaches (u := u) ['q'] (by simp [isPlain]) left
      obtain ⟨t',path',ended⟩ := qString_reaches (u := u) quote clear (by rw [last]; rfl) behind
      exact ⟨t',path.trans path',ended⟩
    · exact doubled_reaches body (by rw [space]; decide) (by simpa using left)
  have whole : (wrap body).drop 0 = blockHead ++ (literal body ++ blockTail) := by
    rw [drop_zero,wrap,append_assoc]
  obtain ⟨s,first,left,space⟩ := plain_reaches (u := u) (s := bindStart) blockHead (all_eq_true.mp (by decide)) whole
  obtain ⟨t,second,left⟩ := literal_reaches (by rw [space]; decide) left
  rw [← append_nil blockTail] at left
  obtain ⟨last,third,left,_⟩ := plain_reaches (u := u) blockTail (all_eq_true.mp (by decide)) left
  have ends : Turn.Ends (bindTurn u (wrap body)) bindStart false :=
    ⟨last,(first.trans second).trans third,by simp [bindTurn,left]⟩
  have ran := (Turn.run_iff_ends (bindTurn_decreasing u (wrap body)) (Nat.lt_succ_self _)).mpr ends
  rw [upstreamFindsABindPlaceholder]
  exact congrArg (·.getD false) ran

end

variable {u : UnicodeTables} {sql : Text} {kind : Rewritable} {sent : Plan}

theorem trimEnd_front (text : Text) : trimEnd text <+: text := rdropWhile_prefix _ _

theorem stripSqlplusTerminator_front (sql : Text) : stripSqlplusTerminator sql <+: sql := by
  unfold stripSqlplusTerminator
  simp only
  split
  · exact trimEnd_front sql
  · split
    · have front : (trimEnd sql).rdropWhile (· != '\n') <+: sql := (List.rdropWhile_prefix _ _).trans (trimEnd_front sql)
      exact (trimEnd_front _).trans ((List.dropLast_prefix _).trans front)
    · exact trimEnd_front sql

theorem normalize_front (u : UnicodeTables) (sql : Text) : normalize u sql <+: sql := by
  refine List.IsPrefix.trans ?_ (stripSqlplusTerminator_front sql)
  unfold normalize stripStatementTerminator
  split
  · exact (trimEnd_front _).trans (List.dropLast_prefix _)
  · exact prefix_rfl

theorem eq_of_prefix_len (front : a <+: b) (size : len a = len b) : a = b := by
  obtain ⟨rest,rfl⟩ := front
  rw [len_append] at size
  cases rest with
  | nil => rw [append_nil]
  | cons c rest =>
    have := c.utf8Size_pos
    rw [len_cons] at size
    omega

/-- No placeholder is found in what is sent for a trigger, and the server reads from a wrapped body's
literal exactly the body. -/
theorem rewrite_hides_and_keeps (recognised : Rewritable.detect u sql = some kind) (planned : plan u sql = .ok sent) :
    upstreamFindsABindPlaceholder u (sent.text sql) = false ∧
      ∀ body, wrap body = blockHead ++ literal body ++ blockTail ∧
        readLiteral (literal body ++ blockTail) = some (body,blockTail) := by
  refine ⟨?_,fun body => ⟨rfl,readLiteral_literal body (by decide)⟩⟩
  simp only [plan,recognised] at planned
  cases found : upstreamFindsABindPlaceholder u (normalize u sql) with
  | false =>
    simp only [found,Bool.not_false,if_true,Except.ok.injEq] at planned
    subst planned
    split
    · next size =>
      rw [← eq_of_prefix_len (normalize_front u sql) (beq_iff_eq.mp size)]
      exact found
    · exact found
  | true =>
    simp only [found,Bool.not_true,Bool.false_eq_true,if_false] at planned
    split at planned
    · cases planned
    · cases planned
      exact wrap_hides u _

def sampleTrigger : Text := "CREATE TRIGGER t BEGIN :NEW.a := 1; END;\n/".toList

theorem sample_trigger_is_hidden : plan asciiTables sampleTrigger =
        .ok (.wrapped ⟨.trigger,blockHead ++ "q'[CREATE TRIGGER t BEGIN :NEW.a := 1; END;]'".toList ++ blockTail⟩) ∧
      upstreamFindsABindPlaceholder asciiTables
        (blockHead ++ "q'[CREATE TRIGGER t BEGIN :NEW.a := 1; END;]'".toList ++ blockTail) = false := by
  have planned : plan asciiTables sampleTrigger =
      .ok (.wrapped ⟨.trigger,blockHead ++ "q'[CREATE TRIGGER t BEGIN :NEW.a := 1; END;]'".toList ++ blockTail⟩) := by
    decide +kernel
  have recognised : Rewritable.detect asciiTables sampleTrigger = some .trigger := by decide +kernel
  exact ⟨planned,(rewrite_hides_and_keeps recognised planned).1⟩

end Reldex.OracleThin
