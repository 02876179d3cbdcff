import Reldex.SqlCursor

/-! What the callers of the lexer are promised: tokens that cover their text, and no error token
from a single block. -/
namespace Reldex
open Option Nat Bool
open List hiding after

section

/-- Non-empty tokens one after the other, from the first offset to the last. -/
def Tiles : Nat → List Token → Nat → Prop
  | start, [], stop => start = stop
  | start, token :: rest, stop => token.start = start ∧ token.start < token.stop ∧ Tiles token.stop rest stop

structure Covers (text : Text) (tokens : List Token) : Prop where
  tiles : Tiles 0 tokens (len text)
  boundaries : ∀ token ∈ tokens, isCharBoundary text token.start = true ∧ isCharBoundary text token.stop = true
  texts : (tokens.map fun token => slice text token.start token.stop).flatten = text

variable {u : UnicodeTables} {d : SqlDialect}

theorem layout_tiles (pos : Nat) (some : ∀ l ∈ ls, l.text ≠ []) : Tiles pos (layout pos ls) (pos + len (flat ls)) := by
  induction ls generalizing pos with
  | nil => rfl
  | cons l rest ih =>
    have read : 0 < len l.text := Nat.pos_of_ne_zero fun none => some l (by simp) (Scanning.len_eq_zero.mp none)
    have later := ih (pos + len l.text) fun other member => some other (mem_cons_of_mem _ member)
    refine ⟨rfl,Nat.lt_add_of_pos_right read,?_⟩
    rw [flat_cons,len_append,← add_assoc]
    exact later

theorem layout_slices (before : Text) (whole : text = before ++ flat ls) :
    (∀ token ∈ layout (len before) ls, isCharBoundary text token.start = true ∧ isCharBoundary text token.stop = true) ∧
      (layout (len before) ls).map (fun token => slice text token.start token.stop) = ls.map Lexeme.text := by
  induction ls generalizing before with
  | nil => simp [layout]
  | cons l rest ih =>
    have split : text = before ++ l.text ++ flat rest := by simp [whole]
    have later := ih (before ++ l.text) split
    rw [len_append] at later
    have here : slice text (len before) (len before + len l.text) = l.text := by
      rw [split,← len_append]
      exact slice_middle before l.text (flat rest)
    refine ⟨?_,by simp [layout,here,later.2]⟩
    intro token member
    rcases mem_cons.mp member with rfl | member
    · refine ⟨(isCharBoundary_iff _ _).mpr ⟨before,_,whole,rfl⟩,?_⟩
      exact (isCharBoundary_iff _ _).mpr ⟨before ++ l.text,_,split,len_append ..⟩
    · exact later.1 token member

theorem layout_covers (some : ∀ l ∈ ls, l.text ≠ []) (whole : flat ls = text) : Covers text (layout 0 ls) := by
  obtain ⟨boundaries,texts⟩ := layout_slices [] whole.symm
  refine ⟨?_,boundaries,?_⟩
  · have tiles := layout_tiles 0 some
    rwa [whole,zero_add] at tiles
  · rw [← whole] at texts ⊢
    exact congrArg flatten texts

/-- With block comment delimiters that are not empty the lexer returns on every block and every
document, without a panic, and its tokens cover the text. -/
theorem tokens_cover_text (delimiters : d.NonEmptyBlockDelimiters) (text : Text) (state : Mode) :
    (∃ tokens final, Scanning.tokenizeBlock u d text state = some (tokens,final) ∧ Covers text tokens) ∧
      ∃ tokens, Scanning.tokenize u d text = some tokens ∧ Covers text tokens := by
  constructor
  · obtain ⟨⟨found,final⟩,lexed⟩ : ∃ result, lexBlock u d state text = some result :=
      lexFrom_total delimiters (lt_succ_self text.length)
    refine ⟨layout 0 found,final,?_,layout_covers (lexFrom_nonempty delimiters lexed) (lexFrom_flat lexed)⟩
    rw [Scanning.tokenizeBlock_eq,tokenizeBlock,lexed]
    rfl
  · obtain ⟨found,lexed⟩ := lexemes_total (u := u) delimiters text
    obtain ⟨final,lexing⟩ := lexemes_lexing lexed
    refine ⟨layout 0 found,?_,layout_covers (lexemes_nonempty delimiters lexed) lexing.flat⟩
    rw [Scanning.tokenize_eq,tokenize,lexed]
    rfl

/-- A word of two-byte characters before a quote that stays open. -/
theorem open_quote_is_covered :
    (∃ tokens final, Scanning.tokenizeBlock asciiTables (oracleLike []) "é 'x".toList .normal = some (tokens,final) ∧
        Covers "é 'x".toList tokens) ∧
      ∃ tokens, Scanning.tokenize asciiTables (oracleLike []) "é 'x".toList = some tokens ∧
        Covers "é 'x".toList tokens :=
  tokens_cover_text (oracleLike_delimiters []) "é 'x".toList .normal

end

variable {u : UnicodeTables} {d : SqlDialect}

structure IsIdentifier (u : UnicodeTables) (word : Text) : Prop where
  first : ∃ c ∈ word.head?, u.isAlphabetic c = true
  parts : ∀ c ∈ word, isIdentifierPart u c = true

/-- What follows blanks is at the start of the line if they were. -/
def Lexeme.isBlank (l : Lexeme) : Bool := !l.text.isEmpty && l.text.all isLexerWhitespace

/-- In normal mode and where no comment starts, the prefix of an alternative quote with its quote and
no delimiter. -/
def Lexeme.CutQuote (u : UnicodeTables) (d : SqlDialect) (atLineStart : Bool) (l : Lexeme) : Prop :=
  l.entry = .normal ∧ nextTokenComment u d atLineStart l.text = none ∧
    ∃ word, l.text = word ++ ['\''] ∧ IsIdentifier u word ∧ wordIn d.quoting.alternativeQuotePrefixes word = true

theorem quote_not_part : isIdentifierPart u '\'' = false := by
  have alphabetic := u.alphabetic_ascii '\'' (by decide)
  have numeric := u.numeric_ascii '\'' (by decide)
  simp [isIdentifierPart,UnicodeTables.isAlphanumeric,alphabetic,numeric]

theorem leadingIdentifierLen_quote (identifier : IsIdentifier u word) (rest : Text) :
    leadingIdentifierLen u (word ++ '\'' :: rest) = word.length := by
  obtain ⟨c,head,alphabetic⟩ := identifier.first
  cases word with
  | nil => simp at head
  | cons first more =>
    obtain rfl : first = c := by simpa using head
    have whole : (first :: more ++ '\'' :: rest).takeWhile (isIdentifierPart u) = first :: more := by
      rw [takeWhile_append_of_pos identifier.parts,takeWhile_cons_of_neg (by simp [quote_not_part]),append_nil]
    rw [cons_append,leadingIdentifierLen,if_pos alphabetic,← cons_append,whole]

theorem leadingIdentifier_is (alphabetic : u.isAlphabetic ch = true) :
    IsIdentifier u ((ch :: after).take (leadingIdentifierLen u (ch :: after))) := by
  have whole : (ch :: after).take (leadingIdentifierLen u (ch :: after)) = (ch :: after).takeWhile (isIdentifierPart u) := by
    rw [leadingIdentifierLen,if_pos alphabetic,Scanning.take_takeWhile]
  have part : isIdentifierPart u ch = true := by simp [isIdentifierPart,UnicodeTables.isAlphanumeric,alphabetic]
  rw [whole]
  refine ⟨⟨ch,by simp [part],alphabetic⟩,fun c member => mem_takeWhile_imp member⟩

theorem nextTokenComment_kind (found : nextTokenComment u d atLineStart text = some lexed) : lexed.kind = .comment := by
  simp only [nextTokenComment] at found
  split at found
  · cases found
    rfl
  split at found
  · cases found
    rfl
  · cases (ite_none_right_eq_some.mp found).2
    rfl

theorem turnLexeme_whole (last : (nextToken u d mode atLineStart text).rest = []) :
    (turnLexeme u d mode atLineStart text).text = text := by
  simp [turnLexeme,last,consumed]

theorem turnLexeme_error (error : (turnLexeme u d mode atLineStart (c :: cs)).kind = .error) :
    (turnLexeme u d mode atLineStart (c :: cs)).CutQuote u d atLineStart ∧
      (nextToken u d mode atLineStart (c :: cs)).rest = [] := by
  cases mode with
  | blockComment | singleQuoted | doubleQuoted | qString => simp [turnLexeme,nextToken,resume] at error
  | normal =>
    have started : Started u d c cs (nextTokenNormal u d atLineStart (c :: cs)) := nextTokenNormal_started
    change (nextTokenNormal u d atLineStart (c :: cs)).kind = .error at error
    have uncommented : nextTokenComment u d atLineStart (c :: cs) = none := by
      by_contra some
      obtain ⟨lexed,found⟩ := ne_none_iff_exists'.mp some
      have kind := nextTokenComment_kind found
      by_cases white : isLexerWhitespace c = true <;> simp [nextTokenNormal,white,found,kind] at error
    cases started with
    | blank _ kind _ => simp [kind] at error
    | lineComment _ same | blockComment _ same | directive _ same | number _ _ same => simp [same,resume,plainToken] at error
    | quoted _ kind same => rcases kind with rfl | rfl <;> simp [same,resume] at error
    | other _ _ kind same => rcases kind with rfl | rfl | rfl <;> simp [same,plainToken] at error
    | word alphabetic same =>
      rw [same] at error
      obtain ⟨rest,whole,⟨_,_,_,read⟩ | ⟨rfl,listed,read⟩ | read | ⟨_,rfl | rfl,read⟩⟩ := nextTokenWord_cases u d (c :: cs)
      case inr.inl =>
        have none : (nextToken u d .normal atLineStart (c :: cs)).rest = [] := by rw [nextToken,same,read]
        refine ⟨⟨rfl,?_,_,?_,leadingIdentifier_is alphabetic,listed⟩,none⟩
        · rw [turnLexeme_whole none]
          exact uncommented
        · rw [turnLexeme_whole none,← whole,take_append_drop]
      all_goals simp [read,resume,plainToken] at error

theorem directive_name (some : 0 < directiveLen u d text) :
    ∃ size, directiveLen u d text = size + leadingIdentifierLen u (text.drop size) ∧
      0 < leadingIdentifierLen u (text.drop size) := by
  revert some
  unfold directiveLen
  cases d.directivePrefix with
  | none => simp
  | some mark =>
    cases text with
    | nil => simp
    | cons c rest =>
      dsimp only
      generalize (if startsWith rest [mark] = true then 2 else 1) = size
      by_cases same : (c == mark) = true <;> by_cases named : 0 < leadingIdentifierLen u ((c :: rest).drop size)
      · simp only [same,named,↓reduceIte]
        exact fun _ => ⟨size,rfl,named⟩
      all_goals simp [same,named]

theorem leadingIdentifier_parts (text : Text) :
    ∀ c ∈ text.take (leadingIdentifierLen u text), isIdentifierPart u c = true := by
  cases text with
  | nil => simp
  | cons ch after =>
    by_cases alphabetic : u.isAlphabetic ch = true
    · exact (leadingIdentifier_is alphabetic).parts
    · simp [leadingIdentifierLen,alphabetic]

theorem directive_last (some : 0 < directiveLen u d text) (ends : text.take (directiveLen u d text) = front ++ [last]) :
    isIdentifierPart u last = true := by
  obtain ⟨size,whole,named⟩ := directive_name some
  rw [whole,take_add] at ends
  have parts := leadingIdentifier_parts (u := u) (text.drop size)
  have bounded := Scanning.leadingIdentifierLen_le u (text.drop size)
  have nonempty : (text.drop size).take (leadingIdentifierLen u (text.drop size)) ≠ [] := by
    intro none
    have length := congrArg length none
    rw [length_take,min_eq_left bounded] at length
    simp only [length_nil] at length
    omega
  obtain ⟨before,final,same⟩ := (eq_nil_or_concat _).resolve_left nonempty
  rw [same,concat_eq_append,← append_assoc] at ends
  obtain ⟨_,last⟩ := append_inj' ends rfl
  rw [← singleton_inj.mp last]
  exact parts final (by simp [same])

theorem nextTokenWord_prefix (identifier : IsIdentifier u word)
    (listed : wordIn d.quoting.alternativeQuotePrefixes word = true) (rest : Text) :
    nextTokenWord u d (word ++ '\'' :: rest) = match rest with
      | delimiter :: content =>
        resume .string (.qString (closingDelimiter delimiter)) (scanQString (closingDelimiter delimiter) content)
      | [] => ⟨.error,.normal,[],false⟩ := by
  cases rest <;> simp [nextTokenWord,leadingIdentifierLen_quote identifier,startsWith,listed]

theorem turnLexeme_cut (last : (nextToken u d mode atLineStart (c :: cs)).rest = [])
    (cut : (turnLexeme u d mode atLineStart (c :: cs)).CutQuote u d atLineStart) :
    (turnLexeme u d mode atLineStart (c :: cs)).kind = .error := by
  obtain ⟨normal,uncommented,word,read,identifier,listed⟩ := cut
  rw [turnLexeme_whole last] at uncommented read
  change mode = .normal at normal
  subst normal
  change (nextTokenNormal u d atLineStart (c :: cs)).rest = [] at last
  change (nextTokenNormal u d atLineStart (c :: cs)).kind = .error
  have alphabetic : u.isAlphabetic c = true := by
    obtain ⟨first,head,alphabetic⟩ := identifier.first
    have same := congrArg head? read
    rw [head?_append,mem_def.mp head] at same
    cases same
    exact alphabetic
  have letter (quote : Char) (ascii : quote.toNat < 128) (plain : quote.isAlpha = false) : (c == quote) = false := by
    refine beq_false_of_ne ?_
    rintro rfl
    simp [u.alphabetic_ascii c ascii,plain] at alphabetic
  unfold nextTokenNormal at last ⊢
  dsimp only at last ⊢
  split at last
  · -- blanks do not reach the quote
    have white := dropWhile_eq_nil_iff.mp last '\'' (by simp [read])
    exact absurd white (by decide)
  rename_i visible
  simp only [visible,uncommented,false_eq_true,↓reduceIte] at last ⊢
  split at last
  · rename_i some
    have part := directive_last some ((take_of_length_le (drop_eq_nil_iff.mp last)).trans read)
    simp [quote_not_part] at part
  rename_i undirected
  rw [if_neg undirected,letter '"' (by decide) (by decide),letter '\'' (by decide) (by decide),if_pos alphabetic,read,
    nextTokenWord_prefix identifier listed []]
  rfl

theorem turnLexeme_isBlank (c : Char) (cs : Text) (atLineStart : Bool) :
    (turnLexeme u d .normal atLineStart (c :: cs)).isBlank = isLexerWhitespace c := by
  have split : (turnLexeme u d .normal atLineStart (c :: cs)).text ++ _ = _ := turnLexeme_text .normal (c :: cs)
  cases white : isLexerWhitespace c with
  | true =>
    have rest : (nextToken u d .normal atLineStart (c :: cs)).rest = (c :: cs).dropWhile isLexerWhitespace := by
      simp [nextToken,nextTokenNormal,white]
    rw [rest] at split
    have text := append_cancel_right (split.trans takeWhile_append_dropWhile.symm)
    simp [Lexeme.isBlank,text,white]
  | false =>
    unfold Lexeme.isBlank
    cases read : (turnLexeme u d .normal atLineStart (c :: cs)).text with
    | nil => rfl
    | cons first more =>
      rw [read] at split
      simp [(cons.inj split).1,white]

/-- A line starts where the block does, and its start goes on behind blanks. -/
theorem nextToken_lineStart (c : Char) (cs : Text) (starts : atLineStart = true → mode = .normal) :
    (nextToken u d mode atLineStart (c :: cs)).atLineStart =
        (atLineStart && (turnLexeme u d mode atLineStart (c :: cs)).isBlank) ∧
      ((nextToken u d mode atLineStart (c :: cs)).atLineStart = true →
        (nextToken u d mode atLineStart (c :: cs)).mode = .normal) := by
  cases mode with
  | blockComment | singleQuoted | doubleQuoted | qString =>
    have inside : atLineStart = false := eq_false_iff.mpr fun start => by cases starts start
    simp [nextToken,resume,inside]
  | normal =>
    rw [turnLexeme_isBlank]
    by_cases white : isLexerWhitespace c = true
    · simp [nextToken,nextTokenNormal,white]
    · have started : Started u d c cs (nextTokenNormal u d atLineStart (c :: cs)) := nextTokenNormal_started
      have later : (nextToken u d .normal atLineStart (c :: cs)).atLineStart = false := by
        rw [nextToken]
        cases started with
        | blank blank => exact absurd blank white
        | lineComment _ same | blockComment _ same | directive _ same | quoted _ _ same | number _ _ same
        | other _ _ _ same => simp [same,resume,plainToken]
        | word _ same =>
          obtain ⟨_,_,⟨_,_,_,read⟩ | ⟨_,_,read⟩ | read | ⟨_,_,read⟩⟩ := nextTokenWord_cases u d (c :: cs)
          all_goals simp [same,read,resume,plainToken]
      simp [later,white]

theorem lexFrom_errors (starts : atLineStart = true → mode = .normal)
    (lexed : lexFrom u d fuel mode atLineStart text = some (found,final)) :
    (∃ l ∈ found, l.kind = .error) ↔
      ∃ l ∈ found.getLast?, l.CutQuote u d (atLineStart && found.dropLast.all Lexeme.isBlank) := by
  replace lexed := lexFrom_lexes lexed
  induction lexed with
  | done => simp
  | @turn mode atLineStart rest final c cs later ih =>
    obtain ⟨line,normal⟩ := nextToken_lineStart c cs starts
    have ih := ih normal
    generalize left : (nextToken u d mode atLineStart (c :: cs)).rest = text at later
    cases later with
    | done =>
      simp only [mem_singleton,exists_eq_left,getLast?_singleton,mem_def,some.injEq,
        exists_eq_left',dropLast_singleton,all_nil,Bool.and_true]
      exact ⟨fun error => (turnLexeme_error error).1,turnLexeme_cut left⟩
    | turn c' cs' _ =>
      -- an error would have left nothing for the next turn
      have fine : (turnLexeme u d mode atLineStart (c :: cs)).kind ≠ .error := by
        intro error
        rw [(turnLexeme_error error).2] at left
        cases left
      rw [getLast?_cons_cons,dropLast_cons_cons,all_cons]
      simpa [fine,line,Bool.and_assoc] using ih

/-- A block has an error token exactly if its last token, where no comment starts, is the prefix of
an alternative quote with its quote and nothing behind it. -/
theorem block_error_iff (lexed : lexBlock u d state text = some (found,final)) :
    Scanning.tokenizeBlock u d text state = some (layout 0 found,final) ∧
      ((∃ token ∈ layout 0 found, token.kind = .error) ↔
        ∃ l ∈ found.getLast?, l.CutQuote u d (state == .normal && found.dropLast.all Lexeme.isBlank)) := by
  have kinds (pos : Nat) : (layout pos found).map Token.kind = found.map Lexeme.kind := by
    clear lexed
    induction found generalizing pos with
    | nil => rfl
    | cons l rest ih => simp [layout,ih]
  have tokens : Scanning.tokenizeBlock u d text state = some (layout 0 found,final) := by
    rw [Scanning.tokenizeBlock_eq,tokenizeBlock,lexed]
    rfl
  refine ⟨tokens,Iff.trans ?_ (lexFrom_errors eq_of_beq lexed)⟩
  have same : TokenKind.error ∈ (layout 0 found).map Token.kind ↔ TokenKind.error ∈ found.map Lexeme.kind := by
    rw [kinds]
  simpa [List.mem_map] using same

def openQuote : Lexeme := ⟨.string,"q'x".toList,.normal,.qString 'x'⟩

theorem open_quote_is_no_error : Scanning.tokenizeBlock asciiTables (oracleLike []) "q'x".toList .normal =
        some (layout 0 [openQuote],.qString 'x') ∧
      ((∃ token ∈ layout 0 [openQuote], token.kind = .error) ↔
        ∃ l ∈ [openQuote].getLast?, l.CutQuote asciiTables (oracleLike []) true) :=
  block_error_iff (by decide)

/-- Without one it is an error. -/
theorem cut_quote_is_an_error :
    Scanning.tokenizeBlock asciiTables (oracleLike []) "q'".toList .normal = some ([⟨.error,0,2⟩],.normal) := by
  decide

end Reldex
