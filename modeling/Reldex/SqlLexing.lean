import Reldex.SqlLexer

/-! What lexing a document guarantees. Lexemes tile the text, their modes form a chain
from normal mode, and each one satisfies `Lexeme.Valid`. The splitter's proofs use these
facts and no scanner. -/
namespace Reldex
open Option Bool Nat
open List hiding after

theorem scanSimpleQuoted_suffix (quote : Char) (text : Text) : (scanSimpleQuoted quote text).2 <:+ text := by
  fun_induction scanSimpleQuoted quote text with
  | case1 => exact suffix_rfl
  | case2 c => exact nil_suffix
  | case3 c next rest isQuote doubled ih => exact (ih.trans (suffix_cons ..)).trans (suffix_cons ..)
  | case4 c next rest isQuote single => exact suffix_cons ..
  | case5 c next rest notQuote ih => exact ih.trans (suffix_cons ..)

theorem scanBlockComment_suffix (close text : Text) : (scanBlockComment close text).2 <:+ text := by
  fun_induction scanBlockComment close text with
  | case1 => exact suffix_rfl
  | case2 c rest found => exact drop_suffix ..
  | case3 c rest missed ih => exact ih.trans (suffix_cons ..)

theorem scanQString_suffix (closing : Char) (text : Text) : (scanQString closing text).2 <:+ text := by
  fun_induction scanQString closing text with
  | case1 => exact suffix_rfl
  | case2 c => exact nil_suffix
  | case3 c next rest found => exact (suffix_cons ..).trans (suffix_cons ..)
  | case4 c next rest missed ih => exact ih.trans (suffix_cons ..)

theorem scanSimpleQuoted_tail (quote c : Char) (cs : Text) : (scanSimpleQuoted quote (c :: cs)).2 <:+ cs := by
  cases cs with
  | nil => exact nil_suffix
  | cons next rest =>
    simp only [scanSimpleQuoted]
    split
    · split
      · exact (scanSimpleQuoted_suffix _ _).trans (suffix_cons ..)
      · exact suffix_rfl
    · exact scanSimpleQuoted_suffix _ _

theorem scanQString_tail (closing c : Char) (cs : Text) : (scanQString closing (c :: cs)).2 <:+ cs := by
  cases cs with
  | nil => exact nil_suffix
  | cons next rest =>
    simp only [scanQString]
    split
    · exact suffix_cons ..
    · exact scanQString_suffix _ _

theorem scanBlockComment_tail (some : close ≠ []) (c : Char) (cs : Text) :
    (scanBlockComment close (c :: cs)).2 <:+ cs := by
  obtain ⟨first,more,rfl⟩ := exists_cons_of_ne_nil some
  simp only [scanBlockComment]
  split
  · simpa using drop_suffix ..
  · exact scanBlockComment_suffix _ _

theorem scanBlockComment_open (unclosed : (scanBlockComment close text).1 = false) : (scanBlockComment close text).2 = [] := by
  fun_induction scanBlockComment close text with
  | case1 => rfl
  | case2 => cases unclosed
  | case3 c cs other ih => exact ih unclosed

theorem scanQString_open (unclosed : (scanQString closing text).1 = false) : (scanQString closing text).2 = [] := by
  fun_induction scanQString closing text with
  | case1 => rfl
  | case2 => rfl
  | case3 => cases unclosed
  | case4 c next rest other ih => exact ih unclosed

theorem skipSign_suffix (text : Text) : skipSign text <:+ text := by
  fun_cases skipSign text with
  | case1 => exact suffix_rfl
  | case2 sign rest isSign => exact suffix_cons ..
  | case3 sign rest notSign => exact suffix_rfl

theorem maybeExponent_suffix (text : Text) : maybeExponent text <:+ text := by
  unfold maybeExponent
  split
  · exact suffix_rfl
  · split
    · exact ((dropWhile_suffix _).trans (skipSign_suffix _)).trans (suffix_cons ..)
    · exact suffix_rfl

theorem scanNumber_eq (text : Text) : scanNumber text =
    if startsWith text ['.'] then maybeExponent ((text.drop 1).dropWhile Char.isDigit)
    else if startsWith (text.dropWhile Char.isDigit) ['.'] &&
        startsWithDigit ((text.dropWhile Char.isDigit).drop 1) then
      maybeExponent (((text.dropWhile Char.isDigit).drop 1).dropWhile Char.isDigit)
    else maybeExponent (text.dropWhile Char.isDigit) := by
  have start (c : Char) (rest : Text) : startsWith (c :: rest) ['.'] = (c == '.') := by
    simp [startsWith,isPrefixOf,beq_comm]
  unfold scanNumber
  split
  · rw [start]
    rfl
  · rename_i other
    have first : startsWith text ['.'] = false := by
      cases text with
      | nil => rfl
      | cons c rest =>
        rw [start,beq_eq_false_iff_ne]
        rintro rfl
        exact other rest rfl
    rw [first]
    split
    · rename_i rest same
      rw [same,start]
      rfl
    · rename_i plain
      have second : startsWith (text.dropWhile Char.isDigit) ['.'] = false := by
        cases digits : text.dropWhile Char.isDigit with
        | nil => rfl
        | cons c rest =>
          rw [start,beq_eq_false_iff_ne]
          rintro rfl
          exact plain rest digits
      rw [second]
      rfl

theorem scanNumber_suffix (text : Text) : scanNumber text <:+ text := by
  have digits (text : Text) : maybeExponent (text.dropWhile Char.isDigit) <:+ text :=
    (maybeExponent_suffix _).trans (dropWhile_suffix _)
  rw [scanNumber_eq]
  split_ifs
  · exact (digits _).trans (drop_suffix ..)
  · exact (digits _).trans ((drop_suffix ..).trans (dropWhile_suffix _))
  · exact digits text

variable {u : UnicodeTables} {d : SqlDialect}

theorem bindVariableLen_pos {size : Nat} (found : bindVariableLen u rest = some size) : 0 < size := by
  unfold bindVariableLen at found
  split at found
  · cases found
  · dsimp only at found
    split at found
    · split at found <;> cases found; omega
    · split at found
      · cases found; omega
      · split at found
        · split at found <;> cases found; omega
        · cases found

theorem substitutionVariableLen_pos {size : Nat} (found : substitutionVariableLen u rest = some size) : 0 < size := by
  simp only [substitutionVariableLen] at found
  rw [ite_none_left_eq_some] at found
  obtain ⟨named,same⟩ := found
  cases same
  have := Nat.pos_of_ne_zero (by simpa using named)
  omega

theorem twoCharOperators_length (found : twoCharOperators.find? p = some operator) : operator.length = 2 := by
  have all : ∀ operator ∈ twoCharOperators, operator.length = 2 := by decide
  exact all operator (mem_of_find?_eq_some found)

/-- How a token of normal mode is read from its first character on. -/
inductive Started (u : UnicodeTables) (d : SqlDialect) (ch : Char) (after : Text) (lexed : Lexed) : Prop where
  | blank (white : isLexerWhitespace ch = true) (kind : lexed.kind = .whitespace)
      (rest : lexed.rest = (ch :: after).dropWhile isLexerWhitespace)
  | lineComment (size : Nat) (same : lexed = ⟨.comment,.normal,((ch :: after).drop size).dropWhile (· != '\n'),false⟩)
  | blockComment (delimiters : d.comments.blockComment = some (start,stop))
      (same : lexed = resume .comment .blockComment (scanBlockComment stop ((ch :: after).drop start.length)))
  | directive (some : 0 < directiveLen u d (ch :: after))
      (same : lexed = plainToken .directive (ch :: after) (directiveLen u d (ch :: after)))
  | quoted (quote : ch = '"' ∨ ch = '\'') (kind : k = .quotedIdentifier ∨ k = .string)
      (same : lexed = resume k mode (scanSimpleQuoted ch after))
  | word (alphabetic : u.isAlphabetic ch = true) (same : lexed = nextTokenWord u d (ch :: after))
  | number (plain : u.isAlphabetic ch = false) (starts : (ch.isDigit || ch == '.') = true)
      (same : lexed = ⟨.number,.normal,scanNumber (ch :: after),false⟩)
  | other {size : Nat} (plain : u.isAlphabetic ch = false) (positive : 0 < size)
      (kind : k = .operator ∨ k = .bindVariable ∨ k = .substitutionVariable)
      (same : lexed = plainToken k (ch :: after) size)

theorem nextTokenComment_started (found : nextTokenComment u d atLineStart (ch :: after) = some lexed) :
    Started u d ch after lexed := by
  simp only [nextTokenComment] at found
  split at found
  · exact .lineComment _ (some.inj found).symm
  split at found
  · rename_i matched
    exact .blockComment (filter_eq_some_iff.mp matched).1 (some.inj found).symm
  · exact .lineComment _ (some.inj (ite_none_right_eq_some.mp found).2).symm

theorem nextTokenOther_started (plain : u.isAlphabetic ch = false) :
    Started u d ch after (nextTokenOther u d (ch :: after) ch after) := by
  unfold nextTokenOther
  split
  · exact .other plain Nat.two_pos (.inl rfl) rfl
  split
  · rename_i number
    refine .number plain ?_ rfl
    rcases or_eq_true _ _ ▸ number with h | h
    · simp [h]
    · simp [((and_eq_true ..).mp h).1]
  split
  · rename_i size found
    exact .other plain (bindVariableLen_pos (ite_none_right_eq_some.mp found).2) (.inr (.inl rfl)) rfl
  split
  · rename_i size found
    exact .other plain (substitutionVariableLen_pos (ite_none_right_eq_some.mp found).2) (.inr (.inr rfl)) rfl
  split
  · rename_i operator found
    exact .other plain (by rw [twoCharOperators_length found]; omega) (.inl rfl) rfl
  · exact .other plain Nat.one_pos (.inl rfl) rfl

theorem nextTokenNormal_started : Started u d ch after (nextTokenNormal u d atLineStart (ch :: after)) := by
  unfold nextTokenNormal
  dsimp only
  split
  · rename_i white
    exact .blank white rfl rfl
  split
  · rename_i lexed found
    exact nextTokenComment_started found
  split
  · rename_i some
    exact .directive some rfl
  split
  · rename_i quote
    obtain rfl := beq_iff_eq.mp quote
    exact .quoted (.inl rfl) (.inl rfl) rfl
  split
  · rename_i quote
    obtain rfl := beq_iff_eq.mp quote
    exact .quoted (.inr rfl) (.inr rfl) rfl
  split
  · rename_i alphabetic
    exact .word alphabetic rfl
  · rename_i plain
    exact nextTokenOther_started (eq_false_iff.mpr plain)

/-- A word, or what it opens together with a quote behind it. -/
theorem nextTokenWord_cases (u : UnicodeTables) (d : SqlDialect) (text : Text) :
    ∃ rest, text.drop (leadingIdentifierLen u text) = rest ∧
      ((∃ delimiter content, rest = '\'' :: delimiter :: content ∧ nextTokenWord u d text =
          resume .string (.qString (closingDelimiter delimiter)) (scanQString (closingDelimiter delimiter) content)) ∨
        (rest = ['\''] ∧ wordIn d.quoting.alternativeQuotePrefixes (text.take (leadingIdentifierLen u text)) = true ∧
          nextTokenWord u d text = ⟨.error,.normal,[],false⟩) ∨
        nextTokenWord u d text = resume .string .singleQuoted (scanSimpleQuoted '\'' (rest.drop 1)) ∨
        ∃ kind, (kind = .keyword ∨ kind = .identifier) ∧
          nextTokenWord u d text = plainToken kind text (leadingIdentifierLen u text)) := by
  refine ⟨_,rfl,?_⟩
  simp only [nextTokenWord]
  split
  · rename_i quoted
    rw [and_eq_true] at quoted
    obtain ⟨later,same⟩ := isPrefixOf_iff_prefix.mp quoted.1
    rw [← same]
    cases later with
    | nil => exact .inr (.inl ⟨rfl,quoted.2,rfl⟩)
    | cons delimiter content => exact .inl ⟨delimiter,content,rfl,rfl⟩
  · split
    · exact .inr (.inr (.inl rfl))
    · exact .inr (.inr (.inr ⟨_,by split <;> simp,rfl⟩))

theorem nextTokenWord_tail (d : SqlDialect) (whole : text.drop (leadingIdentifierLen u text) <:+ after) :
    (nextTokenWord u d text).rest <:+ after := by
  obtain ⟨rest,same,⟨delimiter,content,rfl,read⟩ | ⟨_,_,read⟩ | read | ⟨kind,_,read⟩⟩ := nextTokenWord_cases u d text
  all_goals rw [read]
  · exact (scanQString_suffix _ _).trans (((suffix_cons ..).trans (suffix_cons ..)).trans (same ▸ whole))
  · exact nil_suffix
  · exact (scanSimpleQuoted_suffix _ _).trans ((drop_suffix ..).trans (same ▸ whole))
  · exact whole

theorem Started.suffix (started : Started u d ch after lexed) : lexed.rest <:+ ch :: after := by
  cases started with
  | blank _ _ rest => exact rest ▸ dropWhile_suffix _
  | lineComment size same => exact same ▸ (dropWhile_suffix _).trans (drop_suffix ..)
  | blockComment _ same => exact same ▸ (scanBlockComment_suffix _ _).trans (drop_suffix ..)
  | directive _ same | other _ _ _ same => exact same ▸ drop_suffix ..
  | quoted _ _ same => exact same ▸ (scanSimpleQuoted_suffix _ _).trans (suffix_cons ..)
  | word _ same => exact same ▸ nextTokenWord_tail d (drop_suffix ..)
  | number _ _ same => exact same ▸ scanNumber_suffix _

theorem nextTokenNormal_suffix (text : Text) : (nextTokenNormal u d atLineStart text).rest <:+ text := by
  cases text with
  | nil => exact suffix_rfl
  | cons ch after => exact nextTokenNormal_started.suffix

theorem nextToken_suffix (mode : Mode) (text : Text) : (nextToken u d mode atLineStart text).rest <:+ text := by
  cases mode with
  | normal => exact nextTokenNormal_suffix text
  | blockComment => exact scanBlockComment_suffix ..
  | singleQuoted => exact scanSimpleQuoted_suffix ..
  | doubleQuoted => exact scanSimpleQuoted_suffix ..
  | qString closing => exact scanQString_suffix ..

/-- A token reads something, except that an empty pair of comment delimiters makes
comments of nothing. -/
def Lexed.Progress (d : SqlDialect) (text : Text) (r : Lexed) : Prop :=
  r.rest.length < text.length ∨ (r.kind = .comment ∧ r.mode = .normal ∧ d.comments.blockComment = some ([],[]))

theorem shorter_of_tail (tail : rest <:+ after) : rest.length < (ch :: after).length := by
  have := tail.length_le
  simp only [length_cons]
  omega

theorem leadingIdentifierLen_pos (alphabetic : u.isAlphabetic ch = true) :
    0 < leadingIdentifierLen u (ch :: after) := by
  simp [leadingIdentifierLen,alphabetic,isIdentifierPart,UnicodeTables.isAlphanumeric]

theorem dropWhile_cons_shorter (p : Char → Bool) (first : p ch = true) : (ch :: after).dropWhile p <:+ after := by
  rw [dropWhile_cons,if_pos first]
  exact dropWhile_suffix _

theorem scanNumber_shorter (starts : (ch.isDigit || ch == '.') = true) :
    (scanNumber (ch :: after)).length < (ch :: after).length := by
  apply shorter_of_tail
  rw [scanNumber_eq]
  split_ifs with point fraction
  · exact (maybeExponent_suffix _).trans (dropWhile_suffix _)
  all_goals
    have other : ch ≠ '.' := by
      rintro rfl
      exact point rfl
    have digit : ch.isDigit = true := by simpa [other] using starts
    have whole : (ch :: after).dropWhile Char.isDigit <:+ after := dropWhile_cons_shorter _ digit
  · exact ((maybeExponent_suffix _).trans (dropWhile_suffix _)).trans ((drop_suffix ..).trans whole)
  · exact (maybeExponent_suffix _).trans whole

/-- A line comment reads at least one character even when its mark is empty. -/
theorem toLineEnd_shorter (visible : isLexerWhitespace ch = false) (size : Nat) :
    (((ch :: after).drop size).dropWhile (· != '\n')).length < (ch :: after).length := by
  apply shorter_of_tail
  cases size with
  | zero =>
    have notBreak : (ch != '\n') = true := by
      rw [bne_iff_ne]
      rintro rfl
      exact absurd visible (by decide)
    exact dropWhile_cons_shorter _ notBreak
  | succ size => exact (dropWhile_suffix _).trans (by simpa using drop_suffix ..)

theorem scanBlockComment_progress (found : d.comments.blockComment = some (start,stop)) :
    (resume .comment .blockComment
      (scanBlockComment stop ((ch :: after).drop start.length))).Progress d (ch :: after) := by
  cases start with
  | cons first more =>
    exact .inl (shorter_of_tail ((scanBlockComment_suffix _ _).trans (by simpa using drop_suffix ..)))
  | nil =>
    simp only [length_nil,drop_zero]
    by_cases none : stop = []
    · subst none
      exact .inr ⟨rfl,by simp [resume,scanBlockComment,startsWith],found⟩
    · exact .inl (shorter_of_tail (scanBlockComment_tail none ch after))

structure Lexed.Visible (d : SqlDialect) (text : Text) (r : Lexed) : Prop where
  progress : r.Progress d text
  notBlank : r.kind ≠ .whitespace
  operator : r.kind = .operator → r.mode = .normal
  comment : r.kind = .comment → r.mode = .normal ∨ r.mode = .blockComment

theorem plainToken_visible {size : Nat} (blank : kind ≠ .whitespace) (comment : kind ≠ .comment) (positive : 0 < size) :
    (plainToken kind (ch :: after) size).Visible d (ch :: after) := by
  refine ⟨.inl ?_,blank,fun _ => rfl,fun same => absurd same comment⟩
  simp only [plainToken,length_drop,length_cons]
  omega

theorem Started.visible (started : Started u d ch after lexed) (visible : isLexerWhitespace ch = false) :
    lexed.Visible d (ch :: after) := by
  cases started with
  | blank white => simp [visible] at white
  | lineComment size same =>
    subst same
    exact ⟨.inl (toLineEnd_shorter visible _),nofun,nofun,fun _ => .inl rfl⟩
  | blockComment delimiters same =>
    subst same
    exact ⟨scanBlockComment_progress delimiters,nofun,nofun,fun _ => by simp [resume]⟩
  | directive some same => exact same ▸ plainToken_visible nofun nofun some
  | quoted _ kind same =>
    subst same
    have shorter : _ < (ch :: after).length := shorter_of_tail (scanSimpleQuoted_suffix ch after)
    rcases kind with rfl | rfl <;> exact ⟨.inl shorter,nofun,nofun,nofun⟩
  | word alphabetic same =>
    subst same
    have positive : 0 < leadingIdentifierLen u (ch :: after) := leadingIdentifierLen_pos alphabetic
    obtain ⟨size,hs⟩ := exists_eq_succ_of_ne_zero positive.ne'
    have shorter : (nextTokenWord u d (ch :: after)).Progress d (ch :: after) :=
      .inl (shorter_of_tail (nextTokenWord_tail d (by rw [hs]; exact drop_suffix size after)))
    obtain ⟨_,_,⟨_,_,_,read⟩ | ⟨_,_,read⟩ | read | ⟨_,rfl | rfl,read⟩⟩ := nextTokenWord_cases u d (ch :: after)
    all_goals
      rw [read] at shorter ⊢
      exact ⟨shorter,nofun,nofun,nofun⟩
  | number _ starts same =>
    subst same
    exact ⟨.inl (scanNumber_shorter starts),nofun,nofun,nofun⟩
  | other _ positive kind same =>
    subst same
    rcases kind with rfl | rfl | rfl <;> exact plainToken_visible nofun nofun positive

def flat (lexemes : List Lexeme) : Text := (lexemes.map Lexeme.text).flatten

@[simp] theorem flat_nil : flat [] = [] := rfl
@[simp] theorem flat_cons (l : Lexeme) (rest : List Lexeme) : flat (l :: rest) = l.text ++ flat rest := by
  simp [flat]
@[simp] theorem flat_append (a b : List Lexeme) : flat (a ++ b) = flat a ++ flat b := by simp [flat]

theorem layout_append (pos : Nat) (a b : List Lexeme) :
    layout pos (a ++ b) = layout pos a ++ layout (pos + len (flat a)) b := by
  induction a generalizing pos with
  | nil => simp [layout]
  | cons l a ih => simp [layout,ih,add_assoc]

/-- Each lexeme starts in the mode the one before it left. -/
inductive Chain : Mode → List Lexeme → Mode → Prop where
  | nil : Chain mode [] mode
  | cons {l : Lexeme} : l.entry = mode → Chain l.leave rest final → Chain mode (l :: rest) final

theorem Chain.append (first : Chain a x b) (second : Chain b y c) : Chain a (x ++ y) c := by
  induction first with
  | nil => exact second
  | cons entry _ ih => exact .cons entry (ih second)

theorem Chain.split (whole : Chain a (x ++ y) c) : ∃ b, Chain a x b ∧ Chain b y c := by
  induction x generalizing a with
  | nil => exact ⟨a,.nil,whole⟩
  | cons l x ih =>
    cases whole with
    | cons entry rest =>
      obtain ⟨b,first,second⟩ := ih rest
      exact ⟨b,.cons entry first,second⟩

def Lexeme.Trivial (l : Lexeme) : Prop := l.kind = .whitespace ∨ l.kind = .comment

def Mode.Unquoted (mode : Mode) : Prop := mode = .normal ∨ mode = .blockComment

structure Lexeme.Valid (l : Lexeme) : Prop where
  line : l.text = ['\n'] ∨ '\n' ∉ l.text
  operator : l.kind = .operator → l.entry = .normal ∧ l.leave = .normal
  blank : l.entry = .normal → (∀ c ∈ l.text.head?, isLexerWhitespace c = true) → l.Trivial ∧ l.leave = .normal
  unquoted : l.Trivial → l.entry.Unquoted → l.leave.Unquoted

/-- The lexemes of a document and the mode they end in. Only the last one can be inside
a block comment without being trivial. -/
structure Lexing (text : Text) (lexemes : List Lexeme) (final : Mode) : Prop where
  flat : flat lexemes = text
  chain : Chain .normal lexemes final
  valid : ∀ l ∈ lexemes, l.Valid
  inner : ∀ l ∈ lexemes.dropLast, l.entry = .blockComment → l.Trivial

theorem lineBreak_valid (mode : Mode) : (lineBreak mode).Valid where
  line := .inl rfl
  operator := by simp [lineBreak]
  blank := fun normal _ => ⟨.inl rfl,normal⟩
  unquoted := by simp [lineBreak]

def turnLexeme (u : UnicodeTables) (d : SqlDialect) (mode : Mode) (atLineStart : Bool) (text : Text) :
    Lexeme :=
  let lexed := nextToken u d mode atLineStart text
  ⟨lexed.kind,consumed text lexed.rest,mode,lexed.mode⟩

theorem turnLexeme_text (mode : Mode) (text : Text) :
    (turnLexeme u d mode atLineStart text).text ++ (nextToken u d mode atLineStart text).rest = text :=
  consumed_append (nextToken_suffix mode text)

inductive Lexes (u : UnicodeTables) (d : SqlDialect) : Mode → Bool → Text → List Lexeme → Mode → Prop
  | done : Lexes u d mode atLineStart [] [] mode
  | turn (c : Char) (cs : Text) (later : Lexes u d (nextToken u d mode atLineStart (c :: cs)).mode
      (nextToken u d mode atLineStart (c :: cs)).atLineStart (nextToken u d mode atLineStart (c :: cs)).rest ls final) :
    Lexes u d mode atLineStart (c :: cs) (turnLexeme u d mode atLineStart (c :: cs) :: ls) final

theorem lexFrom_lexes (lexed : lexFrom u d fuel mode atLineStart text = some (ls,final)) :
    Lexes u d mode atLineStart text ls final := by
  fun_induction lexFrom u d fuel mode atLineStart text generalizing ls with
  | case1 => cases lexed; exact .done
  | case2 => cases lexed
  | case3 fuel mode atLineStart c cs turn =>
    rename_i ih
    simp only [map_eq_some_iff,Prod.mk.injEq] at lexed
    obtain ⟨⟨rest,stop⟩,later,rfl,rfl⟩ := lexed
    exact .turn c cs (ih later)

theorem lexFrom_flat (lexed : lexFrom u d fuel mode atLineStart text = some (ls,final)) : flat ls = text := by
  replace lexed := lexFrom_lexes lexed
  induction lexed with
  | done => rfl
  | turn c cs _ ih =>
    rw [flat_cons,ih]
    exact turnLexeme_text _ _

variable (property : Lexeme → Prop)

section
variable (turns : ∀ mode atLineStart c cs, property (turnLexeme u d mode atLineStart (c :: cs)))
include turns

theorem lexFrom_all
    (lexed : lexFrom u d fuel mode atLineStart text = some (found,final)) : ∀ l ∈ found, property l := by
  replace lexed := lexFrom_lexes lexed
  induction lexed with
  | done => simp
  | turn c cs _ ih => exact forall_mem_cons.mpr ⟨turns _ _ c cs,ih⟩

theorem lexLines_all
    (breaks : ∀ mode, property (lineBreak mode)) (lexed : lexLines u d mode lines = some (found,final)) :
    ∀ l ∈ found, property l := by
  fun_induction lexLines u d mode lines generalizing found with
  | case1 mode => cases lexed; simp
  | case2 mode line => exact lexFrom_all property turns lexed
  | case3 mode line next lines ih =>
    obtain ⟨⟨first,carried⟩,lexedLine,more⟩ := bind_eq_some_iff.mp lexed
    obtain ⟨⟨rest,stop⟩,lexedRest,same⟩ := map_eq_some_iff.mp more
    cases same
    intro l member
    rcases mem_append.mp member with front | back
    · exact lexFrom_all property turns lexedLine l front
    · rcases mem_cons.mp back with rfl | later
      · exact breaks carried
      · exact ih carried lexedRest l later

end

theorem consumed_head (shorter : rest.length < (c :: cs).length) : (consumed (c :: cs) rest).head? = some c := by
  obtain ⟨n,hn⟩ : ∃ n, (c :: cs).length - rest.length = n + 1 :=
    ⟨(c :: cs).length - rest.length - 1,by omega⟩
  simp only [consumed,hn,take_succ_cons,head?_cons]

theorem turnLexeme_blank (c : Char) (cs : Text) (atLineStart : Bool)
    (blank : ∀ x ∈ (turnLexeme u d .normal atLineStart (c :: cs)).text.head?, isLexerWhitespace x = true) :
    (turnLexeme u d .normal atLineStart (c :: cs)).Trivial ∧
      (turnLexeme u d .normal atLineStart (c :: cs)).leave = .normal := by
  by_cases white : isLexerWhitespace c = true
  · simp [turnLexeme,nextToken,nextTokenNormal,white,Lexeme.Trivial]
  · have visible : (nextTokenNormal u d atLineStart (c :: cs)).Visible d (c :: cs) :=
      nextTokenNormal_started.visible (eq_false_iff.mpr white)
    rcases visible.progress with shorter | ⟨comment,normal,_⟩
    · exact False.elim (white (blank c (by simp [turnLexeme,nextToken,consumed_head shorter])))
    · exact ⟨.inr comment,normal⟩

theorem turnLexeme_valid (mode : Mode) (c : Char) (cs : Text) (atLineStart : Bool)
    (oneLine : '\n' ∉ c :: cs) : (turnLexeme u d mode atLineStart (c :: cs)).Valid where
  line := by
    refine .inr fun member => oneLine ?_
    have whole : (turnLexeme u d mode atLineStart (c :: cs)).text ++
        (nextToken u d mode atLineStart (c :: cs)).rest = c :: cs := turnLexeme_text mode (c :: cs)
    rw [← whole]
    exact mem_append_left _ member
  operator := by
    intro operator
    cases mode with
    | normal =>
      refine ⟨rfl,?_⟩
      by_cases white : isLexerWhitespace c = true
      · simp [turnLexeme,nextToken,nextTokenNormal,white] at operator
      · exact (nextTokenNormal_started.visible (eq_false_iff.mpr white)).operator operator
    | _ => simp [turnLexeme,nextToken,resume] at operator
  blank := by
    intro normal blank
    change mode = .normal at normal
    subst normal
    exact turnLexeme_blank c cs atLineStart blank
  unquoted := by
    intro trivial unquoted
    rcases unquoted with normal | comment
    · change mode = .normal at normal
      subst normal
      by_cases white : isLexerWhitespace c = true
      · exact .inl (by simp [turnLexeme,nextToken,nextTokenNormal,white])
      · have visible : (nextTokenNormal u d atLineStart (c :: cs)).Visible d (c :: cs) :=
          nextTokenNormal_started.visible (eq_false_iff.mpr white)
        rcases trivial with blank | comment
        · exact False.elim (visible.notBlank blank)
        · exact visible.comment comment
    · change mode = .blockComment at comment
      subst comment
      simp only [turnLexeme,nextToken,resume,Mode.Unquoted]
      split
      · exact .inl rfl
      · exact .inr rfl

/-- Before anything is marked: every lexeme inside a block comment is trivial. -/
structure RawLexing (mode : Mode) (text : Text) (lexemes : List Lexeme) (final : Mode) : Prop where
  flat : flat lexemes = text
  chain : Chain mode lexemes final
  valid : ∀ l ∈ lexemes, l.Valid
  comment : ∀ l ∈ lexemes, l.entry = .blockComment → l.Trivial

theorem lexFrom_raw (oneLine : '\n' ∉ text)
    (lexed : lexFrom u d fuel mode atLineStart text = some (found,final)) : RawLexing mode text found final := by
  replace lexed := lexFrom_lexes lexed
  induction lexed with
  | done => exact ⟨rfl,.nil,by simp,by simp⟩
  | turn c cs later ih =>
    have ih := ih (fun member => oneLine ((nextToken_suffix _ _).subset member))
    refine ⟨?_,.cons rfl ih.chain,forall_mem_cons.mpr ⟨turnLexeme_valid _ c cs _ oneLine,ih.valid⟩,
      forall_mem_cons.mpr ⟨?_,ih.comment⟩⟩
    · rw [flat_cons,ih.flat]
      exact turnLexeme_text _ _
    · rintro rfl
      exact .inr rfl

theorem RawLexing.append (first : RawLexing a x ls b) (second : RawLexing b y more c) :
    RawLexing a (x ++ y) (ls ++ more) c where
  flat := by rw [flat_append,first.flat,second.flat]
  chain := first.chain.append second.chain
  valid := fun l member => (mem_append.mp member).elim (first.valid l) (second.valid l)
  comment := fun l member => (mem_append.mp member).elim (first.comment l) (second.comment l)

theorem lineBreak_raw (mode : Mode) : RawLexing mode ['\n'] [lineBreak mode] mode where
  flat := rfl
  chain := .cons rfl .nil
  valid := by simpa using lineBreak_valid mode
  comment := by simp [Lexeme.Trivial,lineBreak]

theorem lexLines_raw (oneLine : ∀ line ∈ lines, '\n' ∉ line) (lexed : lexLines u d mode lines = some (found,final)) :
    RawLexing mode (['\n'].intercalate lines) found final := by
  fun_induction lexLines u d mode lines generalizing found with
  | case1 mode => cases lexed; exact ⟨rfl,.nil,by simp,by simp⟩
  | case2 mode line =>
    simpa using lexFrom_raw (oneLine line (by simp)) lexed
  | case3 mode line next lines ih =>
    obtain ⟨⟨first,carried⟩,lexedLine,more⟩ := bind_eq_some_iff.mp lexed
    obtain ⟨⟨rest,stop⟩,lexedRest,same⟩ := map_eq_some_iff.mp more
    cases same
    have head := lexFrom_raw (oneLine line (by simp)) lexedLine
    have tail := ih carried (fun l member => oneLine l (mem_cons_of_mem _ member)) lexedRest
    simpa using head.append ((lineBreak_raw carried).append tail)

theorem markOpen_eq (some : ls ≠ []) : markOpen ls = ls.dropLast ++ [{ ls.getLast some with kind := .error }] := by
  fun_induction markOpen ls with
  | case1 => exact absurd rfl some
  | case2 last => rfl
  | case3 first next rest ih => simp [ih]

theorem Chain.last (chain : Chain mode ls final) (some : ls ≠ []) : (ls.getLast some).leave = final := by
  induction chain with
  | nil => exact absurd rfl some
  | @cons mode rest final l entry inner ih =>
    by_cases none : rest = []
    · subst none; cases inner; rfl
    · rw [getLast_cons none]; exact ih none

theorem RawLexing.markOpen (raw : RawLexing .normal text ls final) (stillOpen : final ≠ .normal) :
    Lexing text (markOpen ls) final := by
  have some : ls ≠ [] := by
    rintro rfl
    cases raw.chain
    exact stillOpen rfl
  have leave := raw.chain.last some
  have whole := dropLast_append_getLast some
  generalize hlast : ls.getLast some = last at leave whole
  have chain := raw.chain
  have member : ∀ l ∈ ls.dropLast, l ∈ ls := fun l inside => dropLast_subset _ inside
  rw [← whole] at chain
  obtain ⟨middle,front,back⟩ := chain.split
  rw [markOpen_eq some,hlast]
  refine ⟨?_,front.append ?_,?_,?_⟩
  · rw [← raw.flat]
    conv_rhs => rw [← whole]
    simp
  · cases back with
    | cons entry rest => exact .cons entry rest
  · intro l found
    rcases mem_append.mp found with inside | found
    · exact raw.valid l (member l inside)
    · have valid := raw.valid last (hlast ▸ getLast_mem some)
      obtain rfl := mem_singleton.mp found
      refine ⟨valid.line,by simp,?_,by simp [Lexeme.Trivial]⟩
      intro normal blank
      exact absurd ((valid.blank normal blank).2.symm.trans leave) (Ne.symm stillOpen)
  · intro l found
    rw [dropLast_concat] at found
    exact raw.comment l (member l found)

theorem splitOn_oneLine (text : Text) : ∀ line ∈ text.splitOn '\n', '\n' ∉ line := by
  induction text with
  | nil => simp
  | cons c cs ih =>
    rw [splitOn_cons_eq_if_modifyHead]
    obtain ⟨head,tail,same⟩ := exists_cons_of_ne_nil (splitOn_ne_nil '\n' cs)
    rw [same] at ih ⊢
    split
    · intro line member
      rcases mem_cons.mp member with rfl | member
      · simp
      · exact ih line member
    · rename_i other
      intro line member
      rcases mem_cons.mp member with rfl | member
      · have := ih head (by simp)
        simp only [beq_iff_eq] at other
        simp [this,Ne.symm other]
      · exact ih line (mem_cons_of_mem _ member)

theorem lexemes_lexing (lexed : lexemes u d text = some ls) : ∃ final, Lexing text ls final := by
  obtain ⟨⟨raw,final⟩,lines,same⟩ := map_eq_some_iff.mp lexed
  have sound := lexLines_raw (splitOn_oneLine text) lines
  rw [intercalate_splitOn] at sound
  refine ⟨final,?_⟩
  dsimp only at same
  split at same
  · subst same
    exact ⟨sound.flat,sound.chain,sound.valid,fun l member => sound.comment l (dropLast_subset _ member)⟩
  · rename_i stillOpen
    subst same
    exact sound.markOpen (by simpa using stillOpen)

theorem markOpen_text (ls : List Lexeme) : (markOpen ls).map Lexeme.text = ls.map Lexeme.text := by
  fun_induction markOpen ls with
  | case1 => rfl
  | case2 last => rfl
  | case3 first next rest ih => simpa using ih

variable (delimiters : d.NonEmptyBlockDelimiters)
include delimiters

theorem blockCommentClose_ne_nil : blockCommentClose d ≠ [] := by
  unfold blockCommentClose
  cases found : d.comments.blockComment with
  | none => decide
  | some pair => exact (delimiters pair.1 pair.2 found).2

theorem nextTokenNormal_shorter :
    (nextTokenNormal u d atLineStart (ch :: after)).rest.length < (ch :: after).length := by
  by_cases white : isLexerWhitespace ch = true
  · simp only [nextTokenNormal,white,↓reduceIte]
    exact shorter_of_tail (dropWhile_cons_shorter _ white)
  · have visible : (nextTokenNormal u d atLineStart (ch :: after)).Visible d (ch :: after) :=
      nextTokenNormal_started.visible (eq_false_iff.mpr white)
    rcases visible.progress with shorter | ⟨_,_,empty⟩
    · exact shorter
    · exact absurd rfl (delimiters [] [] empty).1

theorem nextToken_shorter (mode : Mode) :
    (nextToken u d mode atLineStart (ch :: after)).rest.length < (ch :: after).length := by
  cases mode with
  | normal => exact nextTokenNormal_shorter delimiters
  | blockComment =>
    exact shorter_of_tail (scanBlockComment_tail (blockCommentClose_ne_nil delimiters) ch after)
  | singleQuoted => exact shorter_of_tail (scanSimpleQuoted_tail _ ch after)
  | doubleQuoted => exact shorter_of_tail (scanSimpleQuoted_tail _ ch after)
  | qString closing => exact shorter_of_tail (scanQString_tail closing ch after)

theorem turnLexeme_nonempty (mode : Mode) (atLineStart : Bool) (c : Char) (cs : Text) :
    (turnLexeme u d mode atLineStart (c :: cs)).text ≠ [] := by
  have shorter : (nextToken u d mode atLineStart (c :: cs)).rest.length < (c :: cs).length :=
    nextToken_shorter delimiters mode
  intro empty
  change consumed _ _ = [] at empty
  simpa [empty] using consumed_head shorter

theorem lexFrom_nonempty
    (lexed : lexFrom u d fuel mode atLineStart text = some (found,final)) : ∀ l ∈ found, l.text ≠ [] :=
  lexFrom_all (·.text ≠ []) (turnLexeme_nonempty delimiters) lexed

theorem lexemes_nonempty (lexed : lexemes u d text = some ls) : ∀ l ∈ ls, l.text ≠ [] := by
  obtain ⟨⟨raw,final⟩,lines,same⟩ := map_eq_some_iff.mp lexed
  have sound := lexLines_all (·.text ≠ []) (turnLexeme_nonempty delimiters) (fun _ => cons_ne_nil _ _) lines
  dsimp only at same
  split at same
  · exact same ▸ sound
  · subst same
    intro l member
    have known : l.text ∈ raw.map Lexeme.text := markOpen_text raw ▸ mem_map_of_mem member
    obtain ⟨other,inside,same⟩ := mem_map.mp known
    exact same ▸ sound other inside

theorem lexFrom_total (enough : text.length < fuel) :
    ∃ result, lexFrom u d fuel mode atLineStart text = some result := by
  induction fuel generalizing mode atLineStart text with
  | zero => omega
  | succ fuel ih =>
    cases text with
    | nil => exact ⟨_,rfl⟩
    | cons c cs =>
      have shorter : (nextToken u d mode atLineStart (c :: cs)).rest.length < (c :: cs).length :=
        nextToken_shorter delimiters mode
      simp only [lexFrom]
      generalize nextToken u d mode atLineStart (c :: cs) = lexed at shorter ⊢
      obtain ⟨result,later⟩ := @ih lexed.mode lexed.atLineStart lexed.rest (by omega)
      exact ⟨_,by rw [later]; rfl⟩

theorem lexLines_total (mode : Mode) (lines : List Text) : ∃ result, lexLines u d mode lines = some result := by
  fun_induction lexLines u d mode lines with
  | case1 mode => exact ⟨_,rfl⟩
  | case2 mode line => exact lexFrom_total delimiters (by omega)
  | case3 mode line next lines ih =>
    obtain ⟨⟨first,carried⟩,lexed⟩ : ∃ result, lexBlock u d mode line = some result :=
      lexFrom_total delimiters (lt_succ_self line.length)
    obtain ⟨rest,later⟩ := ih carried
    simp only [lexed,bind_some,later,map_some]
    exact ⟨_,rfl⟩

theorem lexemes_total (text : Text) : ∃ ls, lexemes u d text = some ls := by
  obtain ⟨result,lexed⟩ := lexLines_total (u := u) delimiters .normal (text.splitOn '\n')
  simp only [lexemes,lexed,map_some]
  exact ⟨_,rfl⟩

theorem tokenize_total (text : Text) : ∃ tokens, tokenize u d text = some tokens := by
  obtain ⟨ls,lexed⟩ := lexemes_total (u := u) delimiters text
  exact ⟨_,by rw [tokenize,lexed]; rfl⟩

end Reldex
