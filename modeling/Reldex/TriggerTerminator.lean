import Reldex.SqlBlocks
import Reldex.SqlSplitter
import Reldex.TriggerRewrite

/-! The semicolon behind a trigger. It is read backwards, by characters: the semicolon of a block
stays where whitespace alone stands between it, the name and the `END`; a comment there is not
seen as one. -/
namespace Reldex.OracleThin
open Bool
open List hiding tail

section
variable {p : Char → Bool} {front word : Text}

/-- The last character does not belong to a run of such characters. -/
def StopsBefore (p : Char → Bool) (front : Text) : Prop := ∀ c ∈ front.getLast?, p c = false

theorem split_run (stops : StopsBefore p front) (all : ∀ c ∈ word, p c = true) :
    (front ++ word).rdropWhile p = front ∧ (front ++ word).rtakeWhile p = word := by
  have cut : (front ++ word).rdropWhile p = front := by
    induction word using reverseRecOn with
    | nil =>
      rw [append_nil]
      refine rdropWhile_eq_self_iff.mpr fun some => ?_
      simp [stops _ (getLast?_eq_some_getLast some)]
    | append_singleton word c ih =>
      rw [← append_assoc,rdropWhile_concat_pos _ _ _ (all c (by simp))]
      exact ih fun c member => all c (mem_append_left _ member)
  have whole := rdropWhile_append_rtakeWhile (p := p) (l := front ++ word)
  rw [cut] at whole
  exact ⟨cut,append_cancel_left whole⟩

theorem stopsBefore_rdropWhile (p : Char → Bool) (text : Text) : StopsBefore p (text.rdropWhile p) := by
  intro c last
  obtain ⟨some,rfl⟩ := mem_getLast?_eq_getLast last
  exact eq_false_iff.mpr (rdropWhile_last_not p text some)

theorem trimEnd_run (stops : StopsBefore isWhitespace front) (blank : ∀ c ∈ word, isWhitespace c = true) :
    trimEnd (front ++ word) = front := (split_run stops blank).1

end

section
variable {u : UnicodeTables} {text : Text}

/-- No whitespace is a letter or a number, as in every version of Unicode. -/
def BlanksApart (u : UnicodeTables) : Prop := ∀ c, isWhitespace c = true → u.isAlphanumeric c = false

abbrev IsEnd (word : Text) : Prop := eqIgnoreAsciiCase word "END".toList = true

/-- Read backwards over whitespace, the text ends in a quote, in the word `END`, or in a word with
nothing but whitespace between it and `END`. -/
def ReadsAsEnd (u : UnicodeTables) (text : Text) : Prop :=
  ∃ body blanks, text = body ++ blanks ∧ (∀ c ∈ blanks, isWhitespace c = true) ∧
    ((∃ front, body = front ++ ['"']) ∨
      (∃ front word, body = front ++ word ∧ IsEnd word ∧ StopsBefore (isIdentifierChar u) front) ∨
      ∃ front word gap name, body = front ++ word ++ gap ++ name ∧ IsEnd word ∧
        StopsBefore (isIdentifierChar u) front ∧ gap ≠ [] ∧ (∀ c ∈ gap, isWhitespace c = true) ∧ name ≠ [] ∧
        ∀ c ∈ name, isIdentifierChar u c = true)

theorem isEnd_identifier (u : UnicodeTables) (isEnd : IsEnd word) :
    word ≠ [] ∧ ∀ c ∈ word, isIdentifierChar u c = true := by
  have same : lower word = ['e','n','d'] := beq_iff_eq.mp isEnd
  constructor
  · rintro rfl
    cases same
  · intro c member
    have letters : ∀ c ∈ lower word, c.isAlpha = true := by simp [same]
    have letter := isAlpha_of_toLower (letters c.toLower (mem_map_of_mem member))
    simp [isIdentifierChar,UnicodeTables.isAlphanumeric,u.alphabetic_of_isAlpha letter]

theorem identifier_not_blank (apart : BlanksApart u) (part : isIdentifierChar u c = true) : isWhitespace c = false := by
  rw [eq_false_iff]
  intro blank
  have plain : c ≠ '_' ∧ c ≠ '$' ∧ c ≠ '#' := by
    refine ⟨?_,?_,?_⟩ <;> rintro rfl <;> exact absurd blank (by decide)
  simp [isIdentifierChar,apart c blank,plain] at part

theorem splitLastWord_run (stops : StopsBefore (isIdentifierChar u) front)
    (all : ∀ c ∈ word, isIdentifierChar u c = true) : splitLastWord u (front ++ word) = (front,word) := by
  obtain ⟨first,second⟩ := split_run stops all
  rw [splitLastWord,first,second]

theorem stopsBefore_of_last (some : word ≠ []) (all : ∀ c ∈ word, p c = false) : StopsBefore p (front ++ word) := by
  intro c last
  rw [getLast?_append_of_ne_nil _ some] at last
  exact all c (mem_of_getLast? last)

theorem blank_not_identifier (apart : BlanksApart u) {gap : Text} (blank : ∀ c ∈ gap, isWhitespace c = true) :
    ∀ c ∈ gap, isIdentifierChar u c = false := by
  intro c member
  rw [eq_false_iff]
  intro part
  have visible := identifier_not_blank apart part
  rw [blank c member] at visible
  cases visible

theorem readsAsEnd_of_closes (closes : closesAPlsqlBlock u text = true) : ReadsAsEnd u text := by
  obtain ⟨blanks,blank,whole⟩ := trimEnd_split text
  refine ⟨trimEnd text,blanks,whole,blank,?_⟩
  have word : trimEnd text = (splitLastWord u (trimEnd text)).1 ++ (splitLastWord u (trimEnd text)).2 :=
    rdropWhile_append_rtakeWhile.symm
  have stops : StopsBefore (isIdentifierChar u) (splitLastWord u (trimEnd text)).1 := stopsBefore_rdropWhile _ _
  have parts : ∀ c ∈ (splitLastWord u (trimEnd text)).2, isIdentifierChar u c = true :=
    fun _ member => mem_rtakeWhile_imp member
  simp only [closesAPlsqlBlock] at closes
  generalize splitLastWord u (trimEnd text) = split at closes word stops parts
  obtain ⟨before,last⟩ := split
  split at closes
  · next quote => exact .inl (getLast?_eq_some_iff.mp (beq_iff_eq.mp quote))
  · simp only at closes word stops parts
    split at closes
    · next isEnd => exact .inr (.inl ⟨before,last,word,isEnd,stops⟩)
    · split at closes
      · cases closes
      · next some =>
        obtain ⟨gap,blankGap,cut⟩ := trimEnd_split before
        have second : trimEnd before = (splitLastWord u (trimEnd before)).1 ++ (splitLastWord u (trimEnd before)).2 :=
          rdropWhile_append_rtakeWhile.symm
        have present : gap ≠ [] := by
          rintro rfl
          rw [append_nil,second] at cut
          obtain ⟨full,letters⟩ := isEnd_identifier u closes
          rw [cut] at stops
          have last := stops _ (by rw [getLast?_append_of_ne_nil _ full]; exact getLast?_eq_some_getLast full)
          rw [letters _ (getLast_mem full)] at last
          cases last
        refine .inr (.inr ⟨(splitLastWord u (trimEnd before)).1,_,gap,last,?_,closes,stopsBefore_rdropWhile _ _,present,
          blankGap,?_,parts⟩)
        · rw [← second,← cut,word]
        · exact fun empty => some (by rw [empty]; rfl)

theorem closes_of_readsAsEnd (apart : BlanksApart u) (reads : ReadsAsEnd u text) : closesAPlsqlBlock u text = true := by
  obtain ⟨body,blanks,rfl,blank,shape⟩ := reads
  have trimmed (front word : Text) (full : word ≠ []) (parts : ∀ c ∈ word, isWhitespace c = false) (blanks : Text)
      (blank : ∀ c ∈ blanks, isWhitespace c = true) : trimEnd (front ++ word ++ blanks) = front ++ word :=
    trimEnd_run (stopsBefore_of_last full parts) blank
  rcases shape with ⟨front,rfl⟩ | ⟨front,word,rfl,isEnd,stops⟩ | ⟨front,word,gap,name,rfl,isEnd,stops,present,gaps,full,parts⟩
  · simp only [closesAPlsqlBlock,trimmed front ['"'] (by simp) (by simp [isWhitespace]) blanks blank]
    simp
  · obtain ⟨full,parts⟩ := isEnd_identifier u isEnd
    have visible : ∀ c ∈ word, isWhitespace c = false := fun c member => identifier_not_blank apart (parts c member)
    simp only [closesAPlsqlBlock,trimmed front word full visible blanks blank,splitLastWord_run stops parts]
    rw [if_pos isEnd]
    exact ite_self _
  · obtain ⟨some,letters⟩ := isEnd_identifier u isEnd
    have visible : ∀ c ∈ name, isWhitespace c = false := fun c member => identifier_not_blank apart (parts c member)
    have shown : ∀ c ∈ word, isWhitespace c = false := fun c member => identifier_not_blank apart (letters c member)
    have between : StopsBefore (isIdentifierChar u) (front ++ word ++ gap) :=
      stopsBefore_of_last present (blank_not_identifier apart gaps)
    simp only [closesAPlsqlBlock,trimmed (front ++ word ++ gap) name full visible blanks blank,
      splitLastWord_run between parts,trimmed front word some shown gap gaps,splitLastWord_run stops letters]
    repeat' split
    · rfl
    · rfl
    · next empty => exact absurd (isEmpty_iff.mp empty) full
    · exact isEnd

end

section
variable {u : UnicodeTables} {sql front : Text}

/-- Whitespace, with at most one line of a `/` alone in it. -/
def ClientTail (tail : Text) : Prop :=
  (∀ c ∈ tail, isWhitespace c = true) ∨
    ∃ before after, tail = before ++ '/' :: after ∧ (∀ c ∈ before ++ after, isWhitespace c = true) ∧ '\n' ∈ before

/-- Nothing is removed from the statement but trailing whitespace and a trailing `/` line. -/
def KeepsTerminator (u : UnicodeTables) (sql : Text) : Prop := ∃ tail, sql = normalize u sql ++ tail ∧ ClientTail tail

theorem ClientTail.no_semicolon (client : ClientTail tail) : ';' ∉ tail := by
  rintro member
  rcases client with blank | ⟨before,after,rfl,blank,_⟩
  · cases blank _ member
  · rcases mem_append.mp member with first | second
    · cases blank _ (mem_append_left _ first)
    · rcases mem_cons.mp second with same | later
      · cases same
      · cases blank _ (mem_append_right _ later)

theorem stripSqlplusTerminator_tail (sql : Text) : ∃ tail, sql = stripSqlplusTerminator sql ++ tail ∧ ClientTail tail := by
  obtain ⟨blanks,blank,whole⟩ := trimEnd_split sql
  have plain : ∃ tail, sql = trimEnd sql ++ tail ∧ ClientTail tail := ⟨blanks,whole,.inl blank⟩
  unfold stripSqlplusTerminator
  simp only
  split
  · exact plain
  · next lines =>
    split
    · next slash =>
      have stops := stopsBefore_rdropWhile (· != '\n') (trimEnd sql)
      have line := rdropWhile_append_rtakeWhile (p := (· != '\n')) (l := trimEnd sql)
      obtain ⟨a,b,ends,spaces⟩ := trim_split ((trimEnd sql).rtakeWhile (· != '\n'))
      rw [beq_iff_eq.mp slash] at spaces
      generalize (trimEnd sql).rdropWhile (· != '\n') = before at lines stops line ⊢
      generalize (trimEnd sql).rtakeWhile (· != '\n') = last at line spaces
      have some : before ≠ [] := fun empty => lines (by rw [empty]; rfl)
      have newline : before.getLast some = '\n' := by
        simpa using stops _ (getLast?_eq_some_getLast some)
      obtain ⟨gap,blankGap,front⟩ := trimEnd_split before.dropLast
      have cut : before = trimEnd before.dropLast ++ gap ++ ['\n'] := by
        rw [← front,← newline,dropLast_append_getLast]
      refine ⟨gap ++ '\n' :: a ++ '/' :: (b ++ blanks),?_,.inr ⟨_,_,rfl,?_,by simp⟩⟩
      · calc sql = before ++ last ++ blanks := by rw [line]; exact whole
          _ = trimEnd before.dropLast ++ (gap ++ '\n' :: a ++ '/' :: (b ++ blanks)) := by
            rw [spaces]
            nth_rewrite 1 [cut]
            simp
      · intro c member
        simp only [mem_append,mem_cons] at member ends
        rcases member with (inGap | rfl | inA) | inB | inBlanks
        · exact blankGap c inGap
        · rfl
        · exact ends c (.inl inA)
        · exact ends c (.inr inB)
        · exact blank c inBlanks
    · exact plain

/-- The semicolon of the statement is kept just where the text before it reads as the end of a block. -/
theorem keepsTerminator_iff (apart : BlanksApart u) (sql : Text) : KeepsTerminator u sql ↔
    ∀ front, stripSqlplusTerminator sql = front ++ [';'] → ReadsAsEnd u front := by
  obtain ⟨tail,whole,client⟩ := stripSqlplusTerminator_tail sql
  constructor
  · rintro ⟨removed,kept,clientToo⟩ front ends
    by_contra reads
    have open_ : closesAPlsqlBlock u front = false :=
      eq_false_iff.mpr fun closes => reads (readsAsEnd_of_closes closes)
    have cut : normalize u sql = trimEnd front := by
      simp [normalize,stripStatementTerminator,ends,open_]
    obtain ⟨blanks,_,split⟩ := trimEnd_split front
    rw [cut,whole,ends] at kept
    have same : removed = blanks ++ ';' :: tail := by
      nth_rewrite 1 [split] at kept
      rw [append_assoc,append_assoc] at kept
      exact (append_cancel_left kept).symm
    exact clientToo.no_semicolon (same ▸ by simp)
  · intro reads
    refine ⟨tail,?_,client⟩
    have kept : normalize u sql = stripSqlplusTerminator sql := by
      unfold normalize stripStatementTerminator
      split
      · next cut =>
        obtain ⟨semi,open_⟩ := and_eq_true_iff.mp cut
        obtain ⟨front,ends⟩ := getLast?_eq_some_iff.mp (beq_iff_eq.mp semi)
        rw [ends,dropLast_concat,closes_of_readsAsEnd apart (reads front ends)] at open_
        cases open_
      · rfl
    rw [kept]
    exact whole

/-- Behind a semicolon the tail of the client is removed, and no more. -/
theorem stripSqlplusTerminator_client (front : Text) (client : ClientTail tail) :
    stripSqlplusTerminator (front ++ ';' :: tail) = front ++ [';'] := by
  have semi : StopsBefore isWhitespace (front ++ [';']) := stopsBefore_of_last (by simp) (by simp [isWhitespace])
  rcases client with blank | ⟨a,b,rfl,blank,newline⟩
  · have trimmed : trimEnd (front ++ ';' :: tail) = front ++ [';'] := by
      rw [append_cons]
      exact trimEnd_run semi blank
    have noSlash : trim ((front ++ [';']).rtakeWhile (· != '\n')) ≠ ['/'] := by
      intro slash
      obtain ⟨a,b,blanks,line⟩ := trim_split ((front ++ [';']).rtakeWhile (· != '\n'))
      rw [slash,rtakeWhile_concat_pos _ _ _ (by decide)] at line
      have member : ';' ∈ a ++ ['/'] ++ b := line ▸ by simp
      have inBlanks : ';' ∈ a ++ b := by simpa using member
      cases blanks _ inBlanks
    simp only [stripSqlplusTerminator,trimmed,beq_iff_eq,noSlash,if_false,ite_self]
  · obtain ⟨after,reversed,same,oneLine⟩ := eq_append_cons_of_mem (mem_reverse.mpr newline)
    have cut : a = reversed.reverse ++ '\n' :: after.reverse := by
      rw [← reverse_reverse a,same]
      simp
    have blankA : ∀ c ∈ a, isWhitespace c = true := fun c member => blank c (mem_append_left _ member)
    have trimmed : trimEnd (front ++ ';' :: (a ++ '/' :: b)) = front ++ ';' :: a ++ ['/'] := by
      have stops : StopsBefore isWhitespace (front ++ ';' :: a ++ ['/']) := stopsBefore_of_last (by simp) (by simp [isWhitespace])
      rw [show front ++ ';' :: (a ++ '/' :: b) = front ++ ';' :: a ++ ['/'] ++ b by simp]
      exact trimEnd_run stops fun c member => blank c (mem_append_right _ member)
    have shape : front ++ ';' :: a ++ ['/'] =
        front ++ [';'] ++ reversed.reverse ++ ['\n'] ++ (after.reverse ++ ['/']) := by simp [cut]
    have stops : StopsBefore (· != '\n') (front ++ [';'] ++ reversed.reverse ++ ['\n']) :=
      stopsBefore_of_last (by simp) (by simp)
    have line : ∀ c ∈ after.reverse ++ ['/'], (c != '\n') = true := by
      intro c member
      rw [bne_iff_ne]
      rintro rfl
      simp [oneLine] at member
    obtain ⟨before,last⟩ := split_run stops line
    have lone : trim (after.reverse ++ ['/']) = ['/'] := by
      rw [← append_nil (after.reverse ++ ['/'])]
      refine trim_surrounded (fun c member => blankA c ?_) (by simp [isWhitespace])
      rw [cut]
      simp only [append_nil,mem_append,mem_cons] at member ⊢
      exact .inr (.inr member)
    have inside : ∀ c ∈ reversed.reverse, isWhitespace c = true := fun c member => blankA c (by
      rw [cut]
      exact mem_append_left _ member)
    simp only [stripSqlplusTerminator,trimmed,shape,before,last,lone,dropLast_concat,trimEnd_run semi inside]
    simp

end

variable {u : UnicodeTables} {d : SqlDialect} {keywords : List Text} {sql : Text}

theorem turnLexeme_word (mode : Mode) (atLineStart : Bool) (c : Char) (cs : Text)
    (word : isWord (turnLexeme u d mode atLineStart (c :: cs)).kind = true) :
    IsIdentifier u (turnLexeme u d mode atLineStart (c :: cs)).text := by
  cases mode with
  | blockComment | singleQuoted | doubleQuoted | qString => cases word
  | normal =>
    have started : Started u d c cs (nextTokenNormal u d atLineStart (c :: cs)) := nextTokenNormal_started
    simp only [turnLexeme,nextToken] at word ⊢
    cases started with
    | blank _ kind _ => rw [kind] at word; cases word
    | lineComment _ same | blockComment _ same | directive _ same | number _ _ same => rw [same] at word; cases word
    | quoted _ kind same => rw [same] at word; rcases kind with rfl | rfl <;> cases word
    | other _ _ kind same => rw [same] at word; rcases kind with rfl | rfl | rfl <;> cases word
    | word alphabetic same =>
      rw [same] at word ⊢
      obtain ⟨rest,whole,⟨_,_,_,read⟩ | ⟨_,_,read⟩ | read | ⟨_,_,read⟩⟩ := nextTokenWord_cases u d (c :: cs)
      all_goals rw [read] at word ⊢
      · cases word
      · cases word
      · cases word
      · have front := take_append_drop (leadingIdentifierLen u (c :: cs)) (c :: cs)
        nth_rewrite 1 [← front]
        rw [plainToken,consumed_front]
        exact leadingIdentifier_is alphabetic

theorem lexemes_word (lexed : lexemes u d sql = some ls) (member : l ∈ ls)
    (word : isWord l.kind = true) : IsIdentifier u l.text := by
  obtain ⟨⟨raw,final⟩,lines,same⟩ := Option.map_eq_some_iff.mp lexed
  have words := lexLines_all (fun l => isWord l.kind = true → IsIdentifier u l.text) turnLexeme_word
    (fun _ word => nomatch word) lines
  dsimp only at same
  split at same
  · subst same
    exact words l member word
  · subst same
    by_cases none : raw = []
    · simp [none,markOpen] at member
    · rw [markOpen_eq none] at member
      rcases mem_append.mp member with front | last
      · exact words l (dropLast_subset _ front) word
      · obtain rfl := mem_singleton.mp last
        cases word

/-- The statement closes a block: its last words are `END` and at most one name, then comes its
semicolon, and behind that no more than a `/`; whitespace and comments stand anywhere. -/
structure BlockEnd (u : UnicodeTables) (keywords : List Text) (sql : Text) where
  before : List Lexeme
  word : Lexeme
  gap : List Lexeme
  name : Option Lexeme
  gap' : List Lexeme
  semi : Lexeme
  after : List Lexeme
  lexed : lexemes u (oracleLike keywords) sql = some (before ++ word :: gap ++ name.toList ++ gap' ++ semi :: after)
  isEnd : isWord word.kind = true ∧ IsEnd word.text
  trivial : ∀ l ∈ gap ++ gap', isTrivial l.kind = true
  named : ∀ n ∈ name, isWord n.kind = true ∨ n.kind = .quotedIdentifier ∧ ∃ inside, n.text = '"' :: inside ++ ['"']
  terminator : semi.kind = .operator ∧ semi.text = [';']
  behind : (∀ l ∈ after, isTrivial l.kind = true) ∨ ∃ a slash b, after = a ++ slash :: b ∧
    (∀ l ∈ a ++ b, isTrivial l.kind = true) ∧ slash.kind = .operator ∧ slash.text = ['/']

def BlockEnd.text (ends : BlockEnd u keywords sql) : Text :=
  flat (ends.before ++ ends.word :: ends.gap ++ ends.name.toList ++ ends.gap')

/-- Whitespace alone stands between `END`, the name and the semicolon, and `END` is not written onto
a number. -/
structure BlockEnd.Plain (ends : BlockEnd u keywords sql) : Prop where
  gaps : ∀ c ∈ flat ends.gap ++ flat ends.gap', isWhitespace c = true
  separate : ∀ n ∈ ends.name, isWord n.kind = true → flat ends.gap ≠ []
  apart : StopsBefore (isIdentifierChar u) (flat ends.before)
  client : ClientTail (flat ends.after)

theorem BlockEnd.sql_eq (ends : BlockEnd u keywords sql) : sql = ends.text ++ ';' :: flat ends.after := by
  obtain ⟨_,lexing⟩ := lexemes_lexing ends.lexed
  refine lexing.flat.symm.trans ?_
  rw [flat_append,flat_cons,ends.terminator.2]
  rfl

theorem BlockEnd.Plain.reads {ends : BlockEnd u keywords sql} (plain : ends.Plain) : ReadsAsEnd u ends.text := by
  have gap : ∀ c ∈ flat ends.gap, isWhitespace c = true := fun c member => plain.gaps c (mem_append_left _ member)
  have gap' : ∀ c ∈ flat ends.gap', isWhitespace c = true := fun c member => plain.gaps c (mem_append_right _ member)
  cases name : ends.name with
  | none =>
    refine ⟨flat ends.before ++ ends.word.text,flat ends.gap ++ flat ends.gap',?_,plain.gaps,
      .inr (.inl ⟨_,_,rfl,ends.isEnd.2,plain.apart⟩)⟩
    simp [BlockEnd.text,name]
  | some n =>
    have whole : ends.text = (flat ends.before ++ ends.word.text ++ flat ends.gap ++ n.text) ++ flat ends.gap' := by
      simp [BlockEnd.text,name]
    refine ⟨_,_,whole,gap',?_⟩
    rcases ends.named n name with word | ⟨_,inside,quoted⟩
    · have member : n ∈ ends.before ++ ends.word :: ends.gap ++ ends.name.toList ++ ends.gap' ++ ends.semi :: ends.after := by
        simp [name]
      obtain ⟨⟨c,first,_⟩,parts⟩ := lexemes_word ends.lexed member word
      refine .inr (.inr ⟨_,_,_,_,rfl,ends.isEnd.2,plain.apart,plain.separate n name word,gap,?_,parts⟩)
      rintro empty
      rw [empty] at first
      cases first
    · exact .inl ⟨flat ends.before ++ ends.word.text ++ flat ends.gap ++ '"' :: inside,by rw [quoted]; simp⟩

/-- When the semicolon that closes a block is kept: exactly when the text before it reads, backwards,
as the end of a block; and so whenever nothing but whitespace stands in between. -/
theorem block_terminator_kept_iff (apart : BlanksApart u) (ends : BlockEnd u keywords sql) :
    (KeepsTerminator u sql ↔ ∀ front, stripSqlplusTerminator sql = front ++ [';'] → ReadsAsEnd u front) ∧
      (ends.Plain → KeepsTerminator u sql ∧ normalize u sql = ends.text ++ [';']) := by
  have exact_ := keepsTerminator_iff apart sql
  refine ⟨exact_,fun plain => ?_⟩
  have cut : stripSqlplusTerminator sql = ends.text ++ [';'] :=
    (congrArg stripSqlplusTerminator ends.sql_eq).trans (stripSqlplusTerminator_client ends.text plain.client)
  refine ⟨exact_.mpr fun front same => ?_,?_⟩
  · rw [cut] at same
    rw [← append_cancel_right same]
    exact plain.reads
  · simp [normalize,stripStatementTerminator,cut,closes_of_readsAsEnd apart plain.reads]

theorem asciiTables_apart : BlanksApart asciiTables := by
  intro c blank
  have letter := (isBlank_cases (or_eq_true_iff.mpr (.inl blank))).1
  have digit : c.isDigit = false := by
    rw [eq_false_iff]
    intro digit
    simp only [isWhitespace,or_eq_true,and_eq_true,decide_eq_true_eq,beq_iff_eq] at blank
    simp only [Char.isDigit,and_eq_true,decide_eq_true_eq,UInt32.le_iff_toNat_le,ge_iff_le] at digit
    change 48 ≤ c.toNat ∧ c.toNat ≤ 57 at digit
    omega
  exact or_eq_false_iff.mpr ⟨letter,digit⟩

def namedBlock : Text := "CREATE TRIGGER t BEGIN NULL; END t;\n/".toList

def namedBlockEnd : BlockEnd asciiTables [] namedBlock where
  before := ((lexemes asciiTables (oracleLike []) namedBlock).getD []).take 11
  word := ⟨.identifier,"END".toList,.normal,.normal⟩
  gap := [⟨.whitespace,[' '],.normal,.normal⟩]
  name := some ⟨.identifier,['t'],.normal,.normal⟩
  gap' := []
  semi := ⟨.operator,[';'],.normal,.normal⟩
  after := [lineBreak .normal,⟨.operator,['/'],.normal,.normal⟩]
  lexed := by decide +kernel
  isEnd := ⟨rfl,by decide⟩
  trivial := by decide
  named := by rintro _ ⟨⟩; exact .inl rfl
  terminator := ⟨rfl,rfl⟩
  behind := .inr ⟨[lineBreak .normal],⟨.operator,['/'],.normal,.normal⟩,[],rfl,by decide,rfl,rfl⟩

theorem named_block_keeps_its_terminator :
    normalize asciiTables namedBlock = "CREATE TRIGGER t BEGIN NULL; END t;".toList := by
  have last : (flat namedBlockEnd.before).getLast? = some ' ' := by decide +kernel
  have plain : namedBlockEnd.Plain := ⟨all_eq_true.mp (by decide +kernel),by rintro _ ⟨⟩; decide,
    fun c member => by rw [last] at member; cases member; decide,.inr ⟨['\n'],[],rfl,all_eq_true.mp (by decide),by decide⟩⟩
  exact ((block_terminator_kept_iff asciiTables_apart namedBlockEnd).2 plain).2.trans (by decide +kernel)

def commentedBlock : Text := "CREATE TRIGGER t BEGIN NULL; END /**/;".toList

def commentedBlockEnd : BlockEnd asciiTables [] commentedBlock where
  before := ((lexemes asciiTables (oracleLike []) commentedBlock).getD []).take 11
  word := ⟨.identifier,"END".toList,.normal,.normal⟩
  gap := [⟨.whitespace,[' '],.normal,.normal⟩,⟨.comment,"/**/".toList,.normal,.normal⟩]
  name := none
  gap' := []
  semi := ⟨.operator,[';'],.normal,.normal⟩
  after := []
  lexed := by decide +kernel
  isEnd := ⟨rfl,by decide⟩
  trivial := by decide
  named := nofun
  terminator := ⟨rfl,rfl⟩
  behind := .inl nofun

/-- A comment behind `END` costs the block its semicolon. -/
theorem commented_block_loses_its_terminator :
    Rewritable.detect asciiTables commentedBlock = some .trigger ∧ Nonempty (BlockEnd asciiTables [] commentedBlock) ∧
      normalize asciiTables commentedBlock = "CREATE TRIGGER t BEGIN NULL; END /**/".toList ∧
      ¬ KeepsTerminator asciiTables commentedBlock := by
  have cut : normalize asciiTables commentedBlock = "CREATE TRIGGER t BEGIN NULL; END /**/".toList := by decide +kernel
  refine ⟨by decide +kernel,⟨commentedBlockEnd⟩,cut,?_⟩
  rintro ⟨tail,whole,client⟩
  have same : commentedBlock = "CREATE TRIGGER t BEGIN NULL; END /**/".toList ++ [';'] := by decide +kernel
  rw [cut,same] at whole
  have semi : tail = [';'] := (append_cancel_left whole).symm
  exact client.no_semicolon (by simp [semi])

end Reldex.OracleThin
