import Mathlib.Data.List.Forall2
import Reldex.SqlLines
import Reldex.SqlSplitter

/-! Texts that differ in the ASCII case of letters. Whatever asks of a character only what both
cases of a letter share reads the two alike, the lexer's scanners among it. -/
namespace Reldex
open List Bool Option

/-- The same character, or one letter in its two ASCII cases. -/
def SameLetter (c c' : Char) : Prop := c.toLower = c'.toLower

instance : Std.Refl SameLetter := ⟨fun _ => rfl⟩

abbrev SameLetters (a b : Text) : Prop := List.Forall₂ SameLetter a b

theorem sameLetters_iff (a b : Text) : SameLetters a b ↔ lower a = lower b := by
  rw [lower,lower,← forall₂_eq_eq_eq,forall₂_map_left_iff,forall₂_map_right_iff]
  rfl

theorem toLower_toNat (c : Char) : c.toLower.toNat = if 65 ≤ c.toNat ∧ c.toNat ≤ 90 then c.toNat + 32 else c.toNat := by
  have range : (c.val ≥ 'A'.val ∧ c.val ≤ 'Z'.val) ↔ 65 ≤ c.toNat ∧ c.toNat ≤ 90 := by
    simp [UInt32.le_iff_toNat_le,← Char.toNat_val]
  unfold Char.toLower
  by_cases upper : 65 ≤ c.toNat ∧ c.toNat ≤ 90
  · rw [dif_pos (range.mpr upper),if_pos upper,← Char.toNat_val,UInt32.toNat_add]
    simp only [Char.toNat_val,UInt32.toNat_sub_of_le _ _ (show 'A'.val ≤ 'a'.val by decide),Char.reduceToNat]
    omega
  · rw [dif_neg (fun inside => upper (range.mp inside)),if_neg upper]

theorem SameLetter.cases (same : SameLetter c c') : c = c' ∨ c.isAlpha = true ∧ c'.isAlpha = true := by
  have numbers := congrArg Char.toNat same
  rw [toLower_toNat,toLower_toNat] at numbers
  rw [isAlpha_iff,isAlpha_iff,← Char.toNat_inj]
  split at numbers <;> split at numbers <;> omega

/-- A question about a character that both cases of a letter answer alike. -/
def CaseBlind {α : Type} (p : Char → α) : Prop := ∀ c c', SameLetter c c' → p c = p c'

theorem caseBlind_of_letters {α : Type} {p : Char → α} (answer : α) (letters : ∀ c, c.isAlpha = true → p c = answer) :
    CaseBlind p := by
  intro c c' same
  rcases same.cases with rfl | ⟨first,second⟩
  · rfl
  · rw [letters c first,letters c' second]

theorem caseBlind_isLexerWhitespace : CaseBlind isLexerWhitespace := by
  refine caseBlind_of_letters false fun c letter => ?_
  rw [isAlpha_iff] at letter
  simp [isLexerWhitespace,isWhitespace,← Char.toNat_inj]
  omega

theorem caseBlind_isWhitespace : CaseBlind isWhitespace := by
  refine caseBlind_of_letters false fun c letter => ?_
  rw [isAlpha_iff] at letter
  simp [isWhitespace]
  omega

theorem caseBlind_isDigit : CaseBlind Char.isDigit := by
  refine caseBlind_of_letters false fun c letter => ?_
  rw [isAlpha_iff] at letter
  simp [Char.isDigit,UInt32.le_iff_toNat_le,Char.toNat_val]
  omega

theorem caseBlind_eq (mark : Char) (plain : mark.isAlpha = false) : CaseBlind (· == mark) := by
  refine caseBlind_of_letters false fun c letter => ?_
  rw [beq_eq_false_iff_ne]
  rintro rfl
  rw [plain] at letter
  exact nomatch letter

theorem caseBlind_isAlphabetic (u : UnicodeTables) : CaseBlind u.isAlphabetic := by
  exact caseBlind_of_letters true fun c letter => u.alphabetic_of_isAlpha letter

theorem caseBlind_isIdentifierPart (u : UnicodeTables) : CaseBlind (isIdentifierPart u) := by
  refine caseBlind_of_letters true fun c letter => ?_
  have alphabetic := u.alphabetic_of_isAlpha letter
  simp [isIdentifierPart,UnicodeTables.isAlphanumeric,alphabetic]

theorem caseBlind_utf8Size : CaseBlind Char.utf8Size := by
  refine caseBlind_of_letters 1 fun c letter => ?_
  rw [Char.utf8Size_eq_one_iff,UInt32.le_iff_toNat_le,Char.toNat_val]
  rw [isAlpha_iff] at letter
  exact Nat.le_trans (show c.toNat ≤ 122 by omega) (by decide)

section
variable {a b : Text}

theorem SameLetters.dropWhile {p : Char → Bool} (blind : CaseBlind p) (same : SameLetters a b) :
    SameLetters (a.dropWhile p) (b.dropWhile p) := by
  induction same with
  | nil => exact .nil
  | @cons c c' a b head tail ih =>
    rw [dropWhile_cons,dropWhile_cons,blind c c' head]
    split
    · exact ih
    · exact .cons head tail

theorem SameLetters.takeWhile {p : Char → Bool} (blind : CaseBlind p) (same : SameLetters a b) :
    SameLetters (a.takeWhile p) (b.takeWhile p) := by
  induction same with
  | nil => exact .nil
  | @cons c c' a b head tail ih =>
    rw [takeWhile_cons,takeWhile_cons,blind c c' head]
    split
    · exact .cons head ih
    · exact .nil

variable (same : SameLetters a b)
include same

theorem SameLetters.startsWith (mark : Text) (plain : ∀ c ∈ mark, c.isAlpha = false) :
    startsWith a mark = startsWith b mark := by
  induction mark generalizing a b with
  | nil => rfl
  | cons m mark ih =>
    cases same with
    | nil => rfl
    | @cons c c' a b head tail =>
      have first : (m == c) = (m == c') := by
        have blind : (c == m) = (c' == m) := caseBlind_eq m (plain m (by simp)) c c' head
        rw [beq_comm,blind,beq_comm]
      have rest := ih tail (fun c member => plain c (by simp [member]))
      simp only [Reldex.startsWith,isPrefixOf,first] at rest ⊢
      rw [rest]

theorem SameLetters.lower_eq : lower a = lower b := (sameLetters_iff a b).mp same

theorem SameLetters.wordIn (words : List Text) : wordIn words a = wordIn words b := by
  simp only [Reldex.wordIn,eqIgnoreAsciiCase,same.lower_eq]

theorem SameLetters.contains (mark : Char) (plain : mark.isAlpha = false) : a.contains mark = b.contains mark := by
  induction same with
  | nil => rfl
  | @cons c c' a b head tail ih =>
    have blind : (c == mark) = (c' == mark) := caseBlind_eq mark plain c c' head
    rw [contains_cons,contains_cons,ih,beq_comm,blind,beq_comm]

end

section

structure ScansAlike (x y : Bool × Text) : Prop where
  closed : x.1 = y.1
  rest : SameLetters x.2 y.2

variable {a b : Text} (same : SameLetters a b) (u : UnicodeTables)

include same

theorem SameLetters.leadingIdentifierLen : leadingIdentifierLen u a = leadingIdentifierLen u b := by
  cases same with
  | nil => rfl
  | @cons c c' a b head tail =>
    have words := SameLetters.takeWhile (caseBlind_isIdentifierPart u) (.cons head tail)
    rw [Reldex.leadingIdentifierLen,Reldex.leadingIdentifierLen,caseBlind_isAlphabetic u c c' head,words.length_eq]

theorem SameLetters.startsWithDigit : startsWithDigit a = startsWithDigit b := by
  cases same with
  | nil => rfl
  | @cons c c' a b head tail => exact caseBlind_isDigit c c' head

theorem SameLetters.skipSign : SameLetters (skipSign a) (skipSign b) := by
  cases same with
  | nil => exact .nil
  | @cons c c' a b head tail =>
    have plus : (c == '+') = (c' == '+') := caseBlind_eq '+' rfl c c' head
    have minus : (c == '-') = (c' == '-') := caseBlind_eq '-' rfl c c' head
    rw [Reldex.skipSign,Reldex.skipSign,plus,minus]
    split
    · exact tail
    · exact .cons head tail

theorem SameLetters.maybeExponent : SameLetters (maybeExponent a) (maybeExponent b) := by
  cases same with
  | nil => exact .nil
  | @cons c c' a b head tail =>
    have exponent : CaseBlind fun e => e == 'e' || e == 'E' := by
      intro c c' same
      have lowered (c : Char) : (c == 'e' || c == 'E') = (c.toLower == 'e') := by
        rw [Bool.eq_iff_iff,Bool.or_eq_true,beq_iff_eq,beq_iff_eq,beq_iff_eq,← Char.toNat_inj,← Char.toNat_inj,
          ← Char.toNat_inj,toLower_toNat]
        simp only [Char.reduceToNat]
        split <;> omega
      simp only [lowered,show c.toLower = c'.toLower from same]
    simp only [Reldex.maybeExponent,exponent c c' head,SameLetters.startsWithDigit (SameLetters.skipSign tail)]
    split
    · exact SameLetters.dropWhile caseBlind_isDigit (SameLetters.skipSign tail)
    · exact .cons head tail

theorem SameLetters.scanNumber : SameLetters (scanNumber a) (scanNumber b) := by
  have digits := SameLetters.dropWhile caseBlind_isDigit same
  have rest := forall₂_drop 1 digits
  rw [scanNumber_eq,scanNumber_eq,same.startsWith ['.'] (by simp),SameLetters.startsWith digits ['.'] (by simp),
    SameLetters.startsWithDigit rest]
  split
  · exact SameLetters.maybeExponent (SameLetters.dropWhile caseBlind_isDigit (forall₂_drop 1 same))
  · split
    · exact SameLetters.maybeExponent (SameLetters.dropWhile caseBlind_isDigit rest)
    · exact SameLetters.maybeExponent digits

theorem SameLetters.bindVariableLen : bindVariableLen u a = bindVariableLen u b := by
  cases same with
  | nil => rfl
  | @cons c c' a b head tail =>
    have quote : (c == '"') = (c' == '"') := caseBlind_eq '"' rfl c c' head
    have inside := SameLetters.takeWhile (p := (· != '"'))
      (fun c c' same => congrArg (!·) (caseBlind_eq '"' rfl c c' same)) tail
    have digits := SameLetters.takeWhile caseBlind_isDigit (.cons head tail)
    have name := SameLetters.leadingIdentifierLen (.cons head tail) u
    simp only [Reldex.bindVariableLen,quote,SameLetters.contains tail '"' rfl,inside.length_eq,
      caseBlind_isDigit c c' head,digits.length_eq,caseBlind_isAlphabetic u c c' head,name]

theorem SameLetters.substitutionNameLen : substitutionNameLen u a = substitutionNameLen u b := by
  cases same with
  | nil => rfl
  | @cons c c' a b head tail =>
    have digits := SameLetters.takeWhile caseBlind_isDigit (.cons head tail)
    have name := SameLetters.leadingIdentifierLen (.cons head tail) u
    simp only [Reldex.substitutionNameLen,caseBlind_isDigit c c' head,digits.length_eq,
      caseBlind_isAlphabetic u c c' head,name]

theorem SameLetters.substitutionVariableLen : substitutionVariableLen u a = substitutionVariableLen u b := by
  have double := same.startsWith ['&'] (by simp)
  have rest (n : Nat) : SameLetters (a.drop n) (b.drop n) := forall₂_drop n same
  have dot (n k : Nat) := SameLetters.startsWith (forall₂_drop k (rest n)) ['.'] (by simp)
  simp only [Reldex.substitutionVariableLen,double,SameLetters.substitutionNameLen (rest _) u,dot]

theorem SameLetters.scanSimpleQuoted (plain : quote.isAlpha = false) :
    ScansAlike (scanSimpleQuoted quote a) (scanSimpleQuoted quote b) := by
  have blind {c c' : Char} (head : SameLetter c c') : (c == quote) = (c' == quote) := caseBlind_eq quote plain c c' head
  fun_induction Reldex.scanSimpleQuoted quote a generalizing b with
  | case1 => cases same; exact ⟨rfl,.nil⟩
  | case2 c =>
    cases same with
    | cons head tail => cases tail; exact ⟨blind head,.nil⟩
  | case3 c next rest closes doubled ih =>
    obtain ⟨c',_,head,tail,rfl⟩ := forall₂_cons_left_iff.mp same
    obtain ⟨next',rest',second,later,rfl⟩ := forall₂_cons_left_iff.mp tail
    rw [Reldex.scanSimpleQuoted,← blind head,← blind second,if_pos closes,if_pos doubled]
    exact ih later
  | case4 c next rest closes single =>
    obtain ⟨c',_,head,tail,rfl⟩ := forall₂_cons_left_iff.mp same
    obtain ⟨next',rest',second,later,rfl⟩ := forall₂_cons_left_iff.mp tail
    rw [Reldex.scanSimpleQuoted,← blind head,← blind second,if_pos closes,if_neg single]
    exact ⟨rfl,.cons second later⟩
  | case5 c next rest inside ih =>
    obtain ⟨c',_,head,tail,rfl⟩ := forall₂_cons_left_iff.mp same
    obtain ⟨next',rest',second,later,rfl⟩ := forall₂_cons_left_iff.mp tail
    rw [Reldex.scanSimpleQuoted,← blind head,if_neg inside]
    exact ih (.cons second later)

end

def SameKind (k k' : TokenKind) : Prop := k = k' ∨ isWord k = true ∧ isWord k' = true

structure Lexed.Alike (x y : Lexed) : Prop where
  kind : SameKind x.kind y.kind
  mode : x.mode = y.mode
  rest : SameLetters x.rest y.rest
  atLineStart : x.atLineStart = y.atLineStart

structure SqlDialect.MarksWithoutLetters (d : SqlDialect) : Prop where
  lineComment : ∀ mark, d.comments.lineComment = some mark → ∀ c ∈ mark, c.isAlpha = false
  blockComment : ∀ start stop, d.comments.blockComment = some (start,stop) → ∀ c ∈ start, c.isAlpha = false
  directive : ∀ mark, d.directivePrefix = some mark → mark.isAlpha = false

def SqlDialect.withKeywords (d : SqlDialect) (keywords : List Text) : SqlDialect := { d with keywords := keywords }

variable {u : UnicodeTables} {d : SqlDialect} {keywords : List Text} {a b : Text} {atLineStart : Bool}

theorem resume_alike (kind : TokenKind) (mode : Mode) (scans : ScansAlike x y) :
    (resume kind mode x).Alike (resume kind mode y) :=
  ⟨.inl rfl,by simp only [resume,scans.closed],scans.rest,rfl⟩

theorem plainToken_alike (same : SameLetters a b) (size : Nat) (kinds : SameKind k k') :
    (plainToken k a size).Alike (plainToken k' b size) :=
  ⟨kinds,rfl,forall₂_drop size same,rfl⟩

theorem wordKind (d d' : SqlDialect) (w w' : Text) :
    SameKind (if d.isKeyword w then .keyword else .identifier) (if d'.isKeyword w' then .keyword else .identifier) := by
  refine .inr ⟨?_,?_⟩ <;> split <;> rfl

variable (keywords : List Text)

theorem nextTokenWord_alike (same : SameLetters a b)
    (quoted : ∀ delimiter rest, (a.drop (leadingIdentifierLen u a)).drop 1 = delimiter :: rest →
      nextTokenWord u d a = resume .string (.qString (closingDelimiter delimiter))
        (scanQString (closingDelimiter delimiter) rest) →
      ∃ rest', (b.drop (leadingIdentifierLen u a)).drop 1 = delimiter :: rest' ∧
        ScansAlike (scanQString (closingDelimiter delimiter) rest) (scanQString (closingDelimiter delimiter) rest')) :
    (nextTokenWord u d a).Alike (nextTokenWord u (d.withKeywords keywords) b) := by
  have size := same.leadingIdentifierLen u
  have after := forall₂_drop (leadingIdentifierLen u a) same
  have word := forall₂_take (leadingIdentifierLen u a) same
  have quote := SameLetters.startsWith after ['\''] (by simp)
  have alternative := SameLetters.wordIn word d.quoting.alternativeQuotePrefixes
  have national := SameLetters.wordIn word d.quoting.nationalStringPrefixes
  have body := forall₂_drop 1 after
  simp only [nextTokenWord,SqlDialect.withKeywords,← size,← quote,← alternative,← national] at quoted ⊢
  by_cases alternate : (startsWith (a.drop (leadingIdentifierLen u a)) ['\''] &&
      wordIn d.quoting.alternativeQuotePrefixes (a.take (leadingIdentifierLen u a))) = true
  · simp only [alternate,if_true] at quoted ⊢
    cases content : (a.drop (leadingIdentifierLen u a)).drop 1 with
    | nil =>
      rw [content] at body
      cases empty : (b.drop (leadingIdentifierLen u a)).drop 1 with
      | nil => exact ⟨.inl rfl,rfl,.nil,rfl⟩
      | cons c rest => rw [empty] at body; cases body
    | cons delimiter rest =>
      rw [content] at quoted
      obtain ⟨rest',same',scans⟩ := quoted delimiter rest rfl rfl
      rw [same']
      exact resume_alike _ _ scans
  · simp only [alternate,false_eq_true,if_false]
    split
    · exact resume_alike _ _ (SameLetters.scanSimpleQuoted body rfl)
    · exact plainToken_alike same _ (wordKind ..)

theorem nextTokenOther_alike (same : SameLetters (c :: a) (c' :: b)) :
    (nextTokenOther u d (c :: a) c a).Alike (nextTokenOther u (d.withKeywords keywords) (c' :: b) c' b) := by
  obtain ⟨head,tail⟩ := forall₂_cons.mp same
  have dots := same.startsWith ['.','.'] (by simp)
  have digit := caseBlind_isDigit c c' head
  have point : (c == '.') = (c' == '.') := caseBlind_eq '.' rfl c c' head
  have colon : (c == ':') = (c' == ':') := caseBlind_eq ':' rfl c c' head
  have ampersand : (c == '&') = (c' == '&') := caseBlind_eq '&' rfl c c' head
  have operators : twoCharOperators.find? (startsWith (c :: a)) = twoCharOperators.find? (startsWith (c' :: b)) := by
    have plain : ∀ mark ∈ twoCharOperators, ∀ c ∈ mark, c.isAlpha = false := by simp [twoCharOperators,phrase]
    rw [← head?_filter,← head?_filter,filter_congr fun mark member => same.startsWith mark (plain mark member)]
  simp only [nextTokenOther,SqlDialect.withKeywords,← dots,← digit,← point,← colon,← ampersand,← operators,
    ← SameLetters.startsWithDigit tail,← SameLetters.bindVariableLen tail u,← SameLetters.substitutionVariableLen tail u]
  split
  · exact plainToken_alike same _ (.inl rfl)
  · split
    · exact ⟨.inl rfl,rfl,SameLetters.scanNumber same,rfl⟩
    · split
      · exact plainToken_alike same _ (.inl rfl)
      · split
        · exact plainToken_alike same _ (.inl rfl)
        · split <;> exact plainToken_alike same _ (.inl rfl)

theorem nextTokenComment_alike (atLineStart : Bool) (marks : d.MarksWithoutLetters) (same : SameLetters a b)
    (block : ∀ start stop, d.comments.blockComment = some (start,stop) →
      nextTokenComment u d atLineStart a =
        some (resume .comment .blockComment (scanBlockComment stop (a.drop start.length))) →
      ScansAlike (scanBlockComment stop (a.drop start.length)) (scanBlockComment stop (b.drop start.length))) :
    (nextTokenComment u d atLineStart a = none ∧ nextTokenComment u (d.withKeywords keywords) atLineStart b = none) ∨
    ∃ x y, nextTokenComment u d atLineStart a = some x ∧
      nextTokenComment u (d.withKeywords keywords) atLineStart b = some y ∧ x.Alike y := by
  have newline : CaseBlind (· != '\n') := fun c c' same => congrArg (!·) (caseBlind_eq '\n' rfl c c' same)
  have toLineEnd {a b : Text} (same : SameLetters a b) :
      Lexed.Alike ⟨.comment,.normal,a.dropWhile (· != '\n'),false⟩ ⟨.comment,.normal,b.dropWhile (· != '\n'),false⟩ :=
    ⟨.inl rfl,rfl,SameLetters.dropWhile newline same,rfl⟩
  have line : d.comments.lineComment.filter (startsWith a) = d.comments.lineComment.filter (startsWith b) := by
    cases found : d.comments.lineComment with
    | none => rfl
    | some mark => simp only [filter_some,same.startsWith mark (marks.lineComment mark found)]
  have starts : d.comments.blockComment.filter (startsWith a ·.1) = d.comments.blockComment.filter (startsWith b ·.1) := by
    cases found : d.comments.blockComment with
    | none => rfl
    | some delimiters =>
      simp only [filter_some,same.startsWith delimiters.1 (marks.blockComment _ _ found)]
  have size := same.leadingIdentifierLen u
  have words : lineCommentWordAt u d atLineStart a = lineCommentWordAt u (d.withKeywords keywords) atLineStart b := by
    have word := forall₂_take (leadingIdentifierLen u a) same
    rw [size] at word
    cases same with
    | nil => rfl
    | @cons c c' a b head tail =>
      simp only [lineCommentWordAt,SqlDialect.withKeywords,caseBlind_isAlphabetic u c c' head,size,
        SameLetters.wordIn word]
  have lines : (d.withKeywords keywords).comments = d.comments := rfl
  simp only [nextTokenComment,lines,← line,← starts,← words,← size] at block ⊢
  cases marked : d.comments.lineComment.filter (startsWith a) with
  | some mark => exact .inr ⟨_,_,rfl,rfl,toLineEnd (forall₂_drop _ same)⟩
  | none =>
    cases opened : d.comments.blockComment.filter (startsWith a ·.1) with
    | some delimiters =>
      simp only [marked,opened] at block ⊢
      have found := (filter_eq_some_iff.mp opened).1
      exact .inr ⟨_,_,rfl,rfl,resume_alike _ _ (block delimiters.1 delimiters.2 found rfl)⟩
    | none =>
      by_cases word : lineCommentWordAt u d atLineStart a = true
      · simp only [word,if_true]
        exact .inr ⟨_,_,rfl,rfl,toLineEnd (forall₂_drop _ same)⟩
      · simp only [word,false_eq_true,if_false]
        exact .inl ⟨trivial,trivial⟩

variable (marks : d.MarksWithoutLetters) (same : SameLetters a b)
include marks same

theorem directiveLen_alike : directiveLen u d a = directiveLen u (d.withKeywords keywords) b := by
  have dialect : (d.withKeywords keywords).directivePrefix = d.directivePrefix := rfl
  cases found : d.directivePrefix with
  | none => simp only [directiveLen,dialect,found]
  | some mark =>
    have plain := marks.directive mark found
    cases same with
    | nil => simp only [directiveLen,dialect,found]
    | @cons c c' a b head tail =>
      have first : (c == mark) = (c' == mark) := caseBlind_eq mark plain c c' head
      have second := SameLetters.startsWith tail [mark] (by simpa using plain)
      have name (n : Nat) : leadingIdentifierLen u ((c :: a).drop n) = leadingIdentifierLen u ((c' :: b).drop n) :=
        SameLetters.leadingIdentifierLen (forall₂_drop n (.cons head tail)) u
      simp only [directiveLen,dialect,found,first,second,name]

/-- One token in normal mode reads alike in both texts, if what a comment or a q-string scans does. -/
theorem nextTokenNormal_alike (block : ∀ start stop, d.comments.blockComment = some (start,stop) →
      nextTokenNormal u d atLineStart a = resume .comment .blockComment (scanBlockComment stop (a.drop start.length)) →
      ScansAlike (scanBlockComment stop (a.drop start.length)) (scanBlockComment stop (b.drop start.length)))
    (quoted : ∀ delimiter rest, (a.drop (leadingIdentifierLen u a)).drop 1 = delimiter :: rest →
      nextTokenNormal u d atLineStart a = resume .string (.qString (closingDelimiter delimiter))
        (scanQString (closingDelimiter delimiter) rest) →
      ∃ rest', (b.drop (leadingIdentifierLen u a)).drop 1 = delimiter :: rest' ∧
        ScansAlike (scanQString (closingDelimiter delimiter) rest) (scanQString (closingDelimiter delimiter) rest')) :
    (nextTokenNormal u d atLineStart a).Alike (nextTokenNormal u (d.withKeywords keywords) atLineStart b) := by
  cases same with
  | nil => exact ⟨.inl rfl,rfl,.nil,rfl⟩
  | @cons c c' a b head tail =>
    have same : SameLetters (c :: a) (c' :: b) := .cons head tail
    have white := caseBlind_isLexerWhitespace c c' head
    have alphabetic := caseBlind_isAlphabetic u c c' head
    have double : (c == '"') = (c' == '"') := caseBlind_eq '"' rfl c c' head
    have single : (c == '\'') = (c' == '\'') := caseBlind_eq '\'' rfl c c' head
    have directive := directiveLen_alike (u := u) keywords marks same
    simp only [nextTokenNormal,← white,← alphabetic,← double,← single,← directive] at block quoted ⊢
    by_cases blank : isLexerWhitespace c = true
    · simp only [blank,if_true]
      exact ⟨.inl rfl,rfl,SameLetters.dropWhile caseBlind_isLexerWhitespace same,rfl⟩
    simp only [blank,false_eq_true,if_false] at block quoted ⊢
    have comments := nextTokenComment_alike (u := u) keywords atLineStart marks same fun start stop delimiters found =>
      block start stop delimiters (by simp only [found])
    rcases comments with ⟨plain,plain'⟩ | ⟨x,y,found,found',alike⟩
    · simp only [plain,plain'] at quoted ⊢
      split
      · exact plainToken_alike same _ (.inl rfl)
      · rename_i bare
        simp only [bare,if_false] at quoted
        split
        · exact resume_alike _ _ (SameLetters.scanSimpleQuoted tail rfl)
        · rename_i unquoted
          simp only [unquoted] at quoted
          split
          · exact resume_alike _ _ (SameLetters.scanSimpleQuoted tail rfl)
          · rename_i open'
            simp only [open'] at quoted
            split
            · rename_i word
              simp only [word,if_true] at quoted
              exact nextTokenWord_alike keywords same quoted
            · exact nextTokenOther_alike keywords same
    · simp only [found,found']
      exact alike

end Reldex
