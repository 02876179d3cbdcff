import Reldex.LetterCase
import Reldex.SplitterPositions

/-! Splitting does not look at the case of words nor at the table of keywords. A text whose words
are written in another case is lexed into the same tokens, and split at the same places. -/
namespace Reldex
open List Option
variable {u : UnicodeTables} {d : SqlDialect} {a b own rest own' rest' : Text} {atLineStart : Bool}

theorem scanBlockComment_closed (closed : (scanBlockComment close a).1 = true) :
    (scanBlockComment close a).2.length + close.length ≤ a.length := by
  fun_induction scanBlockComment close a with
  | case1 => simp_all [List.isEmpty_iff]
  | case2 c cs found =>
    have size := (List.isPrefixOf_iff_prefix.mp found).length_le
    rw [length_drop]
    omega
  | case3 c cs other ih =>
    have := ih closed
    rw [length_cons]
    omega

theorem SameLetters.nil_left (same : SameLetters [] b) : b = [] := by
  cases same
  rfl

theorem startsWith_iff (text mark : Text) : startsWith text mark = true ↔ mark <+: text := isPrefixOf_iff_prefix

theorem scanBlockComment_shut (read : scanBlockComment close (own ++ rest) = (true,rest)) (rest' : Text) :
    scanBlockComment close (own ++ rest') = (true,rest') := by
  induction own with
  | nil =>
    rw [nil_append] at read
    have size := scanBlockComment_closed (congrArg Prod.fst read)
    simp only [read] at size
    obtain rfl := length_eq_zero_iff.mp (show close.length = 0 by omega)
    cases rest' with
    | nil => rfl
    | cons c cs => rw [nil_append,scanBlockComment,if_pos (by rfl)]; rfl
  | cons c own ih =>
    rw [cons_append,scanBlockComment] at read ⊢
    by_cases here : startsWith (c :: (own ++ rest)) close = true
    · rw [if_pos here,Prod.mk.injEq] at read
      have inside := (startsWith_iff _ _).mp here
      have size := congrArg length read.2
      have short := inside.length_le
      simp only [length_drop,length_cons,length_append] at size short
      have whole : close = c :: own := by
        rw [← cons_append] at inside
        exact IsPrefix.eq_of_length (prefix_of_prefix_length_le inside (prefix_append _ _)
          (by simp only [length_cons]; omega)) (by simp only [length_cons]; omega)
      rw [if_pos ((startsWith_iff _ _).mpr (whole ▸ prefix_append (c :: own) rest')),whole]
      simp
    · rw [if_neg here] at read
      have size := scanBlockComment_closed (congrArg Prod.fst read)
      simp only [read,length_append] at size
      rw [if_neg,ih read]
      intro there
      rw [startsWith_iff,← cons_append] at here there
      have fits : close <+: c :: own :=
        prefix_of_prefix_length_le there (prefix_append _ _) (by simp only [length_cons]; omega)
      exact here (fits.trans (prefix_append _ _))

theorem scanQString_shut (read : scanQString closing (own ++ rest) = (true,rest)) (rest' : Text) :
    scanQString closing (own ++ rest') = (true,rest') := by
  have shorter (c : Char) (cs : Text) : scanQString closing (c :: cs) ≠ (true,c :: cs) := fun unread =>
    not_suffix_tail (congrArg Prod.snd unread ▸ scanQString_tail closing c cs)
  induction own with
  | nil =>
    cases rest with
    | nil => exact nomatch read
    | cons c cs => exact absurd read (shorter c cs)
  | cons c own ih =>
    cases own with
    | nil =>
      cases rest with
      | nil => exact nomatch read
      | cons next cs =>
        rw [singleton_append,scanQString] at read
        split at read
        · have size := congrArg length (congrArg Prod.snd read)
          simp at size
        · exact absurd read (shorter next cs)
    | cons next own =>
      simp only [cons_append,scanQString] at read ih ⊢
      split at read
      · rename_i closes
        obtain rfl := append_left_eq_self.mp (congrArg Prod.snd read)
        rw [if_pos closes]
        rfl
      · rename_i other
        rw [if_neg other,ih read]

theorem scan_local {scan : Text → Bool × Text} (shut : scan (own ++ rest) = (true,rest) → scan (own ++ rest') = (true,rest'))
    (unclosed : (scan (own ++ rest)).1 = false → (scan (own ++ rest)).2 = [])
    (read : (scan (own ++ rest)).2 = rest) (same : SameLetters rest rest') :
    ScansAlike (scan (own ++ rest)) (scan (own ++ rest')) := by
  cases closed : (scan (own ++ rest)).1 with
  | true =>
    have found : scan (own ++ rest) = (true,rest) := Prod.ext closed read
    rw [found,shut found]
    exact ⟨rfl,same⟩
  | false =>
    obtain rfl := read.symm.trans (unclosed closed)
    obtain rfl := same.nil_left
    exact ⟨rfl,forall₂_refl _⟩

/-- The text of a lexeme with other case where case does not matter: in a word, in a directive
and in the word that opens a string. -/
def Lexeme.Recased (u : UnicodeTables) (l : Lexeme) (text : Text) : Prop :=
  match l.kind with
  | .keyword | .identifier | .directive => SameLetters l.text text
  | .string | .error =>
    if l.entry = .normal then
      SameLetters (l.text.take (leadingIdentifierLen u l.text)) (text.take (leadingIdentifierLen u l.text)) ∧
        l.text.drop (leadingIdentifierLen u l.text) = text.drop (leadingIdentifierLen u l.text)
    else l.text = text
  | _ => l.text = text

theorem SameLetters.of_eq (same : a = b) : SameLetters a b := same ▸ forall₂_refl a

theorem Lexeme.Recased.same {l : Lexeme} (recased : l.Recased u b) : SameLetters l.text b := by
  unfold Lexeme.Recased at recased
  split at recased
  case h_4 | h_5 =>
    split at recased
    · have joined : SameLetters (_ ++ _) (_ ++ _) := rel_append recased.1 (SameLetters.of_eq recased.2)
      rwa [take_append_drop,take_append_drop] at joined
    · exact SameLetters.of_eq recased
  all_goals first
    | exact recased
    | exact SameLetters.of_eq recased

theorem Lexeme.Recased.eq_of_entry {l : Lexeme} (recased : l.Recased u b) (word : isWord l.kind = false)
    (directive : l.kind ≠ .directive) (inner : l.entry ≠ .normal) : l.text = b := by
  unfold Lexeme.Recased at recased
  split at recased
  all_goals simp_all [isWord]

theorem leadingIdentifierLen_prefix (short : leadingIdentifierLen u (own ++ rest) < own.length) :
    leadingIdentifierLen u own = leadingIdentifierLen u (own ++ rest) := by
  cases own with
  | nil => simp at short
  | cons c own =>
    rw [cons_append] at short ⊢
    simp only [leadingIdentifierLen] at short ⊢
    split
    · rename_i alphabetic
      rw [if_pos alphabetic,← cons_append] at short
      rw [← cons_append]
      rw [takeWhile_append] at short ⊢
      split at short
      · rw [length_append] at short
        omega
      · rename_i within
        rw [if_neg within]
    · rfl

theorem nextToken_alike (marks : d.MarksWithoutLetters) (keywords : List Text) (mode : Mode)
    (split : own ++ (nextToken u d mode atLineStart a).rest = a)
    (same : SameLetters (nextToken u d mode atLineStart a).rest rest')
    (recased : Lexeme.Recased u ⟨(nextToken u d mode atLineStart a).kind,own,mode,leave⟩ own') :
    (nextToken u d mode atLineStart a).Alike
      (nextToken u (d.withKeywords keywords) mode atLineStart (own' ++ rest')) := by
  obtain ⟨rest,read⟩ : ∃ rest, (nextToken u d mode atLineStart a).rest = rest := ⟨_,rfl⟩
  rw [read] at split same
  subst split
  have whole : SameLetters (own ++ rest) (own' ++ rest') := rel_append recased.same same
  cases mode with
  | normal =>
    refine nextTokenNormal_alike keywords marks whole ?_ ?_
    · intro start stop _ found
      simp only [nextToken,found] at read recased
      obtain rfl : own = own' := recased
      by_cases last : rest = []
      · subst last
        obtain rfl := same.nil_left
        exact ⟨rfl,forall₂_refl _⟩
      · have size := (scanBlockComment_suffix stop ((own ++ rest).drop start.length)).length_le
        rw [show (scanBlockComment stop ((own ++ rest).drop start.length)).2 = rest from read] at size
        have present := length_pos_iff.mpr last
        rw [length_drop,length_append] at size
        have inside : start.length ≤ own.length := by omega
        simp only [resume,drop_append_of_le_length inside] at read ⊢
        exact scan_local (fun closed => scanBlockComment_shut closed _) scanBlockComment_open read same
    · intro delimiter body content found
      simp only [nextToken,found,resume] at read recased
      have shorter := (scanQString_suffix (closingDelimiter delimiter) body).length_le
      have size := congrArg length content
      simp only [read,length_drop,length_append,length_cons] at size shorter
      have short : leadingIdentifierLen u (own ++ rest) + 1 < own.length := by omega
      have word := leadingIdentifierLen_prefix (show leadingIdentifierLen u (own ++ rest) < own.length by omega)
      have long : own.length = own'.length := recased.same.length_eq
      obtain ⟨-,kept⟩ : SameLetters _ _ ∧ own.drop (leadingIdentifierLen u own) = own'.drop (leadingIdentifierLen u own) :=
        recased
      rw [word] at kept
      have behind : own.drop (leadingIdentifierLen u (own ++ rest) + 1) =
          own'.drop (leadingIdentifierLen u (own ++ rest) + 1) := by
        rw [← drop_drop,← drop_drop,kept]
      rw [drop_drop,drop_append_of_le_length (by omega)] at content
      rw [drop_drop,drop_append_of_le_length (by omega),← behind]
      cases tail : own.drop (leadingIdentifierLen u (own ++ rest) + 1) with
      | nil =>
        rw [drop_eq_nil_iff] at tail
        omega
      | cons first front =>
        rw [tail,cons_append,cons.injEq] at content
        obtain ⟨rfl,rfl⟩ := content
        exact ⟨front ++ rest',rfl,scan_local (fun closed => scanQString_shut closed _) scanQString_open read same⟩
  | blockComment =>
    obtain rfl := recased.eq_of_entry rfl (by rintro ⟨⟩) (by rintro ⟨⟩)
    exact resume_alike _ _ (scan_local (fun closed => scanBlockComment_shut closed _) scanBlockComment_open read same)
  | singleQuoted =>
    obtain rfl := recased.eq_of_entry rfl (by rintro ⟨⟩) (by rintro ⟨⟩)
    exact resume_alike _ _ (SameLetters.scanSimpleQuoted whole rfl)
  | doubleQuoted =>
    obtain rfl := recased.eq_of_entry rfl (by rintro ⟨⟩) (by rintro ⟨⟩)
    exact resume_alike _ _ (SameLetters.scanSimpleQuoted whole rfl)
  | qString closing =>
    obtain rfl := recased.eq_of_entry rfl (by rintro ⟨⟩) (by rintro ⟨⟩)
    exact resume_alike _ _ (scan_local (fun closed => scanQString_shut closed _) scanQString_open read same)

structure Lexeme.Alike (u : UnicodeTables) (l l' : Lexeme) : Prop where
  kind : SameKind l.kind l'.kind
  entry : l.entry = l'.entry
  leave : l.leave = l'.leave
  recased : l.Recased u l'.text

theorem suffix_unique (first : a <:+ whole) (second : b <:+ whole) (size : a.length = b.length) : a = b :=
  (suffix_of_suffix_length_le first second size.le).eq_of_length size

theorem flat_recased (recased : Forall₂ (Lexeme.Recased u) ls texts) : SameLetters (flat ls) texts.flatten := by
  induction recased with
  | nil => exact .nil
  | cons head _ ih =>
    rw [flat_cons,flatten_cons]
    exact rel_append head.same ih

theorem lexFrom_alike (marks : d.MarksWithoutLetters) (keywords : List Text)
    (lexed : lexFrom u d fuel mode atLineStart a = some (ls,final)) (texts : List Text)
    (recased : Forall₂ (Lexeme.Recased u) ls texts) :
    ∃ ls', lexFrom u (d.withKeywords keywords) fuel mode atLineStart texts.flatten = some (ls',final) ∧
      Forall₂ (Lexeme.Alike u) ls ls' ∧ ls'.map Lexeme.text = texts := by
  induction fuel generalizing mode atLineStart a ls texts with
  | zero =>
    cases a with
    | nil => cases lexed; cases recased; exact ⟨[],rfl,.nil,rfl⟩
    | cons c cs => exact nomatch lexed
  | succ fuel ih =>
    cases a with
    | nil => cases lexed; cases recased; exact ⟨[],rfl,.nil,rfl⟩
    | cons c cs =>
      have flatten := lexFrom_flat lexed
      simp only [lexFrom,map_eq_some_iff,Prod.mk.injEq] at lexed
      obtain ⟨⟨rest,stop⟩,later,rfl,rfl⟩ := lexed
      obtain ⟨text,texts,first,tail,rfl⟩ := forall₂_cons_left_iff.mp recased
      have whole : consumed (c :: cs) (nextToken u d mode atLineStart (c :: cs)).rest ++
          (nextToken u d mode atLineStart (c :: cs)).rest = c :: cs := consumed_append (nextToken_suffix mode _)
      have same : SameLetters (nextToken u d mode atLineStart (c :: cs)).rest texts.flatten :=
        lexFrom_flat later ▸ flat_recased tail
      have alike := nextToken_alike marks keywords mode whole same first
      obtain ⟨c',cs',starts⟩ : ∃ c' cs', text ++ texts.flatten = c' :: cs' := by
        apply exists_cons_of_ne_nil
        have size := (flat_recased recased).length_eq
        rw [flatten,flatten_cons,length_cons] at size
        exact ne_nil_of_length_pos (by omega)
      have left : (nextToken u (d.withKeywords keywords) mode atLineStart (text ++ texts.flatten)).rest = texts.flatten :=
        suffix_unique (nextToken_suffix mode _) (suffix_append _ _) (alike.rest.length_eq.symm.trans same.length_eq)
      obtain ⟨ls',lexed',likes,spelled⟩ := ih later texts tail
      rw [flatten_cons,starts,lexFrom,← starts,left,← alike.mode,← alike.atLineStart,lexed']
      refine ⟨_,rfl,.cons ⟨alike.kind,rfl,rfl,?_⟩ likes,?_⟩
      · rw [consumed_front]
        exact first
      · rw [map_cons,consumed_front,spelled]

theorem SameLetters.oneLine (same : SameLetters a b) (oneLine : '\n' ∉ a) : '\n' ∉ b := by
  rw [← contains_iff_mem,← same.contains '\n' rfl,contains_iff_mem]
  exact oneLine

theorem lexBlock_alike (marks : d.MarksWithoutLetters) (keywords : List Text)
    (lexed : lexBlock u d mode a = some (ls,final)) (texts : List Text)
    (recased : Forall₂ (Lexeme.Recased u) ls texts) :
    SameLetters a texts.flatten ∧ ∃ ls', lexBlock u (d.withKeywords keywords) mode texts.flatten = some (ls',final) ∧
      Forall₂ (Lexeme.Alike u) ls ls' ∧ ls'.map Lexeme.text = texts := by
  have same : SameLetters a texts.flatten := lexFrom_flat lexed ▸ flat_recased recased
  refine ⟨same,?_⟩
  rw [lexBlock,← same.length_eq]
  exact lexFrom_alike marks keywords lexed texts recased

theorem forall₂_split {a b : List α} (related : Forall₂ R (a ++ b) c) :
    ∃ x y, c = x ++ y ∧ Forall₂ R a x ∧ Forall₂ R b y := by
  have front := forall₂_take a.length related
  have back := forall₂_drop a.length related
  rw [take_left] at front
  rw [drop_left] at back
  exact ⟨_,_,(take_append_drop a.length c).symm,front,back⟩

theorem lexLines_alike (marks : d.MarksWithoutLetters) (keywords : List Text) (oneLine : ∀ line ∈ lines, '\n' ∉ line)
    (present : lines ≠ []) (lexed : lexLines u d mode lines = some (ls,final)) (texts : List Text)
    (recased : Forall₂ (Lexeme.Recased u) ls texts) :
    ∃ lines' ls', ['\n'].intercalate lines' = texts.flatten ∧ lines' ≠ [] ∧ (∀ line ∈ lines', '\n' ∉ line) ∧
      lexLines u (d.withKeywords keywords) mode lines' = some (ls',final) ∧
      Forall₂ (Lexeme.Alike u) ls ls' ∧ ls'.map Lexeme.text = texts := by
  fun_induction lexLines u d mode lines generalizing ls texts with
  | case1 mode => exact absurd rfl present
  | case2 mode line =>
    obtain ⟨same,ls',lexed',alike,spelled⟩ := lexBlock_alike marks keywords lexed texts recased
    refine ⟨[texts.flatten],ls',by simp,by simp,?_,lexed',alike,spelled⟩
    simpa using same.oneLine (oneLine line (by simp))
  | case3 mode line next lines ih =>
    obtain ⟨⟨first,carried⟩,lexedLine,more⟩ := bind_eq_some_iff.mp lexed
    obtain ⟨⟨rest,stop⟩,lexedRest,same⟩ := map_eq_some_iff.mp more
    cases same
    obtain ⟨front,_,rfl,recasedFront,recasedBack⟩ := forall₂_split recased
    obtain ⟨newline,back,isBreak,recasedRest,rfl⟩ := forall₂_cons_left_iff.mp recasedBack
    obtain rfl : ['\n'] = newline := isBreak
    obtain ⟨same,ls',lexedFront,alikeFront,spelledFront⟩ := lexBlock_alike marks keywords lexedLine front recasedFront
    obtain ⟨lines',more',joined,present',oneLine',lexedBack,alikeBack,spelledBack⟩ :=
      ih carried (fun l member => oneLine l (mem_cons_of_mem _ member)) (by simp) lexedRest back recasedRest
    obtain ⟨next',rest',rfl⟩ := exists_cons_of_ne_nil present'
    refine ⟨front.flatten :: next' :: rest',ls' ++ lineBreak carried :: more',?_,by simp,?_,?_,?_,?_⟩
    · rw [flatten_append,flatten_cons,← joined]
      simp [intercalate]
    · intro line member
      rcases mem_cons.mp member with rfl | member
      · exact same.oneLine (oneLine _ (by simp))
      · exact oneLine' line member
    · rw [lexLines,lexedFront,bind_some]
      simp only [lexedBack]
      rfl
    · exact rel_append alikeFront (.cons ⟨.inl rfl,rfl,rfl,rfl⟩ alikeBack)
    · rw [map_append,map_cons,spelledFront,spelledBack]
      rfl

/-- A text whose words are written in another case: the lexemes are those of `text`, before one
left open at the end is marked. -/
def CaseVariant (u : UnicodeTables) (d : SqlDialect) (text text' : Text) : Prop :=
  ∃ ls final texts, lexText u d .normal text = some (ls,final) ∧ Forall₂ (Lexeme.Recased u) ls texts ∧
    text' = texts.flatten

structure Lexeme.LooksLike (l l' : Lexeme) : Prop where
  kind : SameKind l.kind l'.kind
  text : SameLetters l.text l'.text
  operator : l.kind = .operator → l.text = l'.text

theorem Lexeme.Alike.looksLike {l l' : Lexeme} (alike : l.Alike u l') : l.LooksLike l' := by
  refine ⟨alike.kind,alike.recased.same,fun operator => ?_⟩
  have recased := alike.recased
  rw [Lexeme.Recased,operator] at recased
  exact recased

theorem markOpen_alike (alike : Forall₂ Lexeme.LooksLike ls ls') :
    Forall₂ Lexeme.LooksLike (markOpen ls) (markOpen ls') := by
  fun_induction markOpen ls generalizing ls' with
  | case1 => cases alike; exact .nil
  | case2 last =>
    obtain ⟨last',_,first,tail,rfl⟩ := forall₂_cons_left_iff.mp alike
    cases tail
    exact .cons ⟨.inl rfl,first.text,by simp⟩ .nil
  | case3 first next rest ih =>
    obtain ⟨first',_,like,tail,rfl⟩ := forall₂_cons_left_iff.mp alike
    obtain ⟨next',rest',like',tail',rfl⟩ := forall₂_cons_left_iff.mp tail
    exact .cons like (ih tail)

theorem CaseVariant.lexemes (marks : d.MarksWithoutLetters) (keywords : List Text) (variants : CaseVariant u d a b) :
    ∃ ls ls', Reldex.lexemes u d a = some ls ∧ Reldex.lexemes u (d.withKeywords keywords) b = some ls' ∧
      Forall₂ Lexeme.LooksLike ls ls' := by
  obtain ⟨ls,final,texts,lexed,recased,rfl⟩ := variants
  obtain ⟨lines',ls',joined,present,oneLine,lexed',alike,_⟩ :=
    lexLines_alike marks keywords (splitOn_oneLine a) (splitOn_ne_nil _ _) lexed texts recased
  have cut : texts.flatten.splitOn '\n' = lines' := by rw [← joined,splitOn_intercalate _ oneLine present]
  have looks : Forall₂ Lexeme.LooksLike ls ls' := alike.imp fun _ _ alike => alike.looksLike
  refine ⟨closeLexemes (ls,final),closeLexemes (ls',final),by rw [lexemes_eq,lexed]; rfl,?_,?_⟩
  · rw [lexemes_eq,lexText,cut,lexed']
    rfl
  · simp only [closeLexemes]
    split
    · exact looks
    · exact markOpen_alike looks

section

section
variable (same : SameLetters a b)
include same

theorem SameLetters.len : len a = len b := by
  induction same with
  | nil => rfl
  | @cons c c' a b head _ ih => rw [len_cons,len_cons,caseBlind_utf8Size c c' head,ih]

theorem SameLetters.cut (n : Nat) : SameLetters (sliceFrom a n) (sliceFrom b n) ∧ SameLetters (sliceTo a n) (sliceTo b n) := by
  induction same generalizing n with
  | nil => exact ⟨forall₂_refl _,forall₂_refl _⟩
  | @cons c c' a b head tail ih =>
    cases n with
    | zero => exact ⟨.cons head tail,.nil⟩
    | succ n =>
      have size := caseBlind_utf8Size c c' head
      simp only [sliceFrom,sliceTo,Weighted.skip,Weighted.keep,size]
      exact ⟨(ih _).1,.cons head (ih _).2⟩

theorem SameLetters.slice (start stop : Nat) : SameLetters (slice a start stop) (slice b start stop) :=
  (same.cut start).1.cut (stop - start) |>.2

theorem SameLetters.reverse : SameLetters a.reverse b.reverse := by
  induction same with
  | nil => exact .nil
  | cons head _ ih =>
    rw [reverse_cons,reverse_cons]
    exact rel_append ih (.cons head .nil)

theorem SameLetters.trimEnd : SameLetters (trimEnd a) (trimEnd b) :=
  (SameLetters.dropWhile caseBlind_isWhitespace same.reverse).reverse

theorem SameLetters.trim : SameLetters (trim a) (trim b) :=
  (SameLetters.dropWhile caseBlind_isWhitespace same).trimEnd

theorem SameLetters.isEmpty : a.isEmpty = b.isEmpty := by
  cases same <;> rfl

end

theorem caseBlind_newline : CaseBlind (· != '\n') := fun c c' same => congrArg (!·) (caseBlind_eq '\n' rfl c c' same)

variable (same : SameLetters a b)
include same

theorem SameLetters.lastLine : SameLetters (lastLine a) (lastLine b) :=
  (SameLetters.takeWhile caseBlind_newline same.reverse).reverse

theorem SameLetters.firstLine : SameLetters (firstLine a) (firstLine b) :=
  SameLetters.takeWhile caseBlind_newline same

theorem SameLetters.trailingLineEnd (offset : Nat) : trailingLineEnd a offset = trailingLineEnd b offset := by
  have rest := (same.cut offset).1
  have line : Reldex.len (lineAfter a offset) = Reldex.len (lineAfter b offset) :=
    (SameLetters.takeWhile caseBlind_newline rest).len
  rw [Reldex.trailingLineEnd,Reldex.trailingLineEnd,rest.contains '\n' rfl,line,same.len]

theorem SameLetters.foldl_step (cursor : PositionCursor) :
    a.foldl PositionCursor.step cursor = b.foldl PositionCursor.step cursor := by
  induction same generalizing cursor with
  | nil => rfl
  | @cons c c' a b head _ ih =>
    have newline : (c == '\n') = (c' == '\n') := caseBlind_eq '\n' rfl c c' head
    rw [foldl_cons,foldl_cons,ih,PositionCursor.step,PositionCursor.step,newline]

theorem SameLetters.advanceTo (cursor : PositionCursor) (target : Nat) :
    cursor.advanceTo a target = cursor.advanceTo b target := by
  rw [PositionCursor.advanceTo,PositionCursor.advanceTo,(same.slice cursor.pos target).foldl_step]

end

section

/-- Two tokens at the same place that the splitter cannot tell apart. -/
structure Aligned (text text' : Text) (t t' : Token) : Prop where
  start : t.start = t'.start
  stop : t.stop = t'.stop
  sig : t.sig text = t'.sig text'

theorem Lexeme.LooksLike.sig {l l' : Lexeme} (looks : l.LooksLike l') (before : SameLetters a b)
    (after : SameLetters rest rest') : l.sig a rest = l'.sig b rest' := by
  have same := looks.text.lower_eq
  have blanks := before.lastLine.trim.isEmpty
  have blanks' := after.firstLine.trim.isEmpty
  rcases looks.kind with kind | ⟨word,word'⟩
  · unfold Lexeme.sig
    rw [← kind,same]
    split
    · rfl
    · split
      · rfl
      · split
        · rename_i operator
          rw [blanks,blanks',looks.operator (beq_iff_eq.mp operator)]
        · rfl
  · have plain (k : TokenKind) (word : isWord k = true) : isTrivial k = false := by
      cases k <;> simp_all [isWord,isTrivial]
    simp only [Lexeme.sig,plain _ word,plain _ word',word,word',same,Bool.false_eq_true,if_false,if_true]

theorem looksLike_flat (looks : Forall₂ Lexeme.LooksLike ls ls') : SameLetters (flat ls) (flat ls') := by
  induction looks with
  | nil => exact .nil
  | cons first _ ih =>
    rw [flat_cons,flat_cons]
    exact rel_append first.text ih

theorem tokens_aligned
    (looks : Forall₂ Lexeme.LooksLike more more') (before : SameLetters (flat done) (flat done'))
    (whole : text = flat (done ++ more)) (whole' : text' = flat (done' ++ more')) :
    Forall₂ (Aligned text text') (tokensFrom done more) (tokensFrom done' more') := by
  induction looks generalizing done done' with
  | nil => exact .nil
  | @cons l l' more more' head tail ih =>
    rw [tokensFrom_cons,tokensFrom_cons]
    have behind := looksLike_flat tail
    have passed : SameLetters (flat (done ++ [l])) (flat (done' ++ [l'])) := by
      simp only [flat_append,flat_cons,flat_nil,append_nil]
      exact rel_append before head.text
    refine .cons ⟨?_,?_,?_⟩ (ih passed (by simp [whole]) (by simp [whole']))
    · simp only [tokenAt]
      exact before.len
    · simp only [tokenAt,before.len,head.text.len]
    · rw [sig_tokenAt whole,sig_tokenAt whole']
      exact head.sig before behind

variable {text text' : Text} {tokens tokens' cur cur' : List Token}

theorem Aligned.sigs (aligned : Forall₂ (Aligned text text') cur cur') : sigs text cur = sigs text' cur' := by
  induction aligned with
  | nil => rfl
  | cons head _ ih =>
    have same := head.sig
    simp only [Reldex.sigs,filterMap_cons] at ih ⊢
    rw [same,ih]

theorem Aligned.stops (aligned : Forall₂ (Aligned text text') cur cur') : cur.map Token.stop = cur'.map Token.stop := by
  induction aligned with
  | nil => rfl
  | cons head _ ih => rw [map_cons,map_cons,head.stop,ih]

theorem Aligned.trivial (aligned : Aligned text text' t t') : isTrivial t.kind = isTrivial t'.kind := by
  have first : t.sig text = none ↔ isTrivial t.kind = true := sig_none_iff
  have second : t'.sig text' = none ↔ isTrivial t'.kind = true := sig_none_iff
  rw [Bool.eq_iff_iff,← first,← second,aligned.sig]

theorem sigs_longer (text : Text) (front later : List Token) (visible : isTrivial t.kind = false) :
    (sigs text later).length < (sigs text (front ++ t :: later)).length := by
  obtain ⟨s,shown⟩ := sig_of_visible text visible
  rw [sigs_append,sigs_cons_some _ shown,length_append,length_cons]
  omega

theorem Aligned.cut (aligned : Forall₂ (Aligned text text') (front ++ t :: later) (front' ++ t' :: later'))
    (visible : isTrivial t.kind = false) (visible' : isTrivial t'.kind = false)
    (behind : Reldex.sigs text later = Reldex.sigs text' later') :
    Aligned text text' t t' ∧ Forall₂ (Aligned text text') later later' := by
  induction front generalizing front' with
  | nil =>
    cases front' with
    | nil =>
      obtain ⟨head,tail⟩ := forall₂_cons.mp aligned
      exact ⟨head,tail⟩
    | cons first front' =>
      rw [nil_append,cons_append] at aligned
      obtain ⟨_,tail⟩ := forall₂_cons.mp aligned
      have size := sigs_longer text' front' later' visible'
      rw [← Aligned.sigs tail,behind] at size
      omega
  | cons first front ih =>
    cases front' with
    | nil =>
      rw [nil_append,cons_append] at aligned
      obtain ⟨_,tail⟩ := forall₂_cons.mp aligned
      have size := sigs_longer text front later visible
      rw [Aligned.sigs tail,behind] at size
      omega
    | cons first' front' => exact ih (forall₂_cons.mp aligned).2

/-- Where a closed scan goes on: behind a visible token, whose end or line end is that of the span. -/
theorem Closed.left {cur read : List Token} (closed : Closed d text tokens start cur read o) :
    o = ranToEof tokens text o.kind ∨ ∃ front t, cur = front ++ t :: o.next ∧ isTrivial t.kind = false ∧
      o.endedBy ≠ .endOfInput ∧ o.fullEnd = if o.endedBy = .slashLine then trailingLineEnd text t.stop else t.stop := by
  have slashes {t : Token} (lone : slashLine text t = true) : isTrivial t.kind = false := by
    simp [slashLine_operator lone,isTrivial]
  have ends {t : Token} (found : isTerminator d text t = true) : isTrivial t.kind = false := by
    have operator := ((Bool.and_eq_true ..).mp found).1
    simp [beq_iff_eq.mp operator,isTrivial]
  cases closed with
  | eof => exact .inl rfl
  | slash _ lone => exact .inr ⟨read,_,rfl,slashes lone,by rintro ⟨⟩,rfl⟩
  | terminator body found => exact .inr ⟨body,_,rfl,ends found,by rintro ⟨⟩,rfl⟩
  | @finished semi next kind body found =>
    rcases finishWithMaybeSlash_cases d text semi.start semi.stop next kind with
      same | ⟨between,slash,later,rfl,_,lone,same⟩
    · rw [same]
      exact .inr ⟨body,_,rfl,ends found,by rintro ⟨⟩,rfl⟩
    · rw [same]
      exact .inr ⟨body ++ semi :: between,slash,by simp,slashes lone,by rintro ⟨⟩,rfl⟩

theorem scanStatement_aligned (letters : SameLetters text text') (all : Forall₂ (Aligned text text') tokens tokens')
    (aligned : Forall₂ (Aligned text text') cur cur') (tail : cur <:+ tokens) (tail' : cur' <:+ tokens')
    (contentStart : Nat) :
    let o := scanStatement d text tokens contentStart cur
    let o' := scanStatement d text' tokens' contentStart cur'
    (∀ start, o.span start = o'.span start) ∧ o.fullEnd = o'.fullEnd ∧
      Forall₂ (Aligned text text') o.next o'.next := by
  have agrees := scanStatement_agrees d text contentStart tail
  have agrees' := scanStatement_agrees d text' contentStart tail'
  rw [← Aligned.sigs all,← Aligned.sigs aligned] at agrees'
  obtain ⟨read,closed,_⟩ := scanStatement_closed d text tokens contentStart cur
  obtain ⟨read',closed',_⟩ := scanStatement_closed d text' tokens' contentStart cur'
  generalize View.scanStatement d (sigs text tokens) (sigs text cur) = e at agrees agrees'
  generalize scanStatement d text tokens contentStart cur = o at agrees closed ⊢
  generalize scanStatement d text' tokens' contentStart cur' = o' at agrees' closed' ⊢
  have kinds : o.kind = o'.kind := agrees.kind.trans agrees'.kind.symm
  have ended : o.endedBy = o'.endedBy := agrees.endedBy.trans agrees'.endedBy.symm
  have terminated : o.terminated = o'.terminated := agrees.terminated.trans agrees'.terminated.symm
  have eof : ranToEof tokens text o.kind = ranToEof tokens' text' o'.kind := by
    rw [ranToEof,ranToEof,← getLast?_map,← getLast?_map,Aligned.stops all,letters.len,kinds]
  have full : o.fullEnd = o'.fullEnd ∧ Forall₂ (Aligned text text') o.next o'.next := by
    have behind := agrees.next.trans agrees'.next.symm
    rcases closed.left with last | ⟨front,t,cut,visible,more,stop⟩
    · rcases closed'.left with last' | ⟨_,_,_,_,more',_⟩
      · rw [last,last',← eof]
        exact ⟨rfl,.nil⟩
      · rw [last] at ended
        exact absurd ended.symm more'
    · rcases closed'.left with last' | ⟨front',t',cut',visible',_,stop'⟩
      · rw [last'] at ended
        exact absurd ended more
      · rw [cut,cut'] at aligned
        obtain ⟨here,after⟩ := Aligned.cut aligned visible visible' behind
        exact ⟨by rw [stop,stop',ended,here.stop,letters.trailingLineEnd],after⟩
  have content : o.contentEnd = o'.contentEnd := by
    rcases agrees.close with ⟨last,closer,_⟩ | ⟨body,t,later,cut,visible,closer,stop⟩
    · rcases agrees'.close with ⟨last',_⟩ | ⟨_,t',later',_,visible',closer',_⟩
      · rw [last,last',eof]
      · have size := sigs_longer text' [] later' visible'
        rw [nil_append,closer',closer] at size
        exact absurd size (Nat.not_lt_zero _)
    · rcases agrees'.close with ⟨_,closer',_⟩ | ⟨body',t',later',cut',visible',closer',stop'⟩
      · have size := sigs_longer text [] later visible
        rw [nil_append,closer,closer'] at size
        exact absurd size (Nat.not_lt_zero _)
      · obtain ⟨s,shown⟩ := sig_of_visible text visible
        obtain ⟨s',shown'⟩ := sig_of_visible text' visible'
        rw [← closer',sigs_cons_some _ shown,sigs_cons_some _ shown',cons.injEq] at closer
        rw [cut,cut'] at aligned
        obtain ⟨here,_⟩ := Aligned.cut aligned visible visible' closer.2
        rw [stop,stop',here.start,(letters.cut t'.start).2.trimEnd.len]
  refine ⟨fun start => ?_,full⟩
  simp only [ScanOutcome.span,content,full.1,kinds,ended,terminated]

theorem Aligned.skipTrivial (aligned : Forall₂ (Aligned text text') cur cur') :
    Forall₂ (Aligned text text') (skipTrivial cur) (skipTrivial cur') := by
  induction aligned with
  | nil => exact .nil
  | cons head tail ih =>
    have kinds := head.trivial
    simp only [Reldex.skipTrivial,dropWhile_cons,← kinds] at ih ⊢
    split
    · exact ih
    · exact .cons head tail

theorem Aligned.idleSlash (aligned : Aligned text text' t t') : idleSlash d text t = idleSlash d text' t' := by
  rw [Reldex.idleSlash,Reldex.idleSlash,slashLine_sig,slashLine_sig,aligned.sig]

theorem scanStatement_within (within : first :: cur <:+ tokens) :
    (scanStatement d text tokens start (first :: cur)).next <:+ tokens := by
  obtain ⟨_,closed,_⟩ := scanStatement_closed d text tokens start (first :: cur)
  exact closed.next_suffix.trans ((suffix_cons ..).trans within)

theorem run_aligned (letters : SameLetters text text') (all : Forall₂ (Aligned text text') tokens tokens')
    (aligned : Forall₂ (Aligned text text') cur cur') (tail : cur <:+ tokens) (tail' : cur' <:+ tokens') :
    Turn.run (splitTurn d text tokens) fuel ⟨cur,cursor,spans⟩ =
      Turn.run (splitTurn d text' tokens') fuel ⟨cur',cursor,spans⟩ := by
  induction fuel generalizing cur cur' cursor spans with
  | zero => rfl
  | succ fuel ih =>
    have same := Aligned.skipTrivial aligned
    have within := (skipTrivial_suffix cur).trans tail
    have within' := (skipTrivial_suffix cur').trans tail'
    simp only [Turn.run,splitTurn]
    generalize skipTrivial cur = left at *
    generalize skipTrivial cur' = right at *
    cases same with
    | nil => rfl
    | @cons t t' _ _ first later =>
      obtain ⟨span,full,after⟩ :=
        scanStatement_aligned (d := d) letters all (.cons first later) within within' t.start
      simp only [← first.idleSlash,← first.start,← letters.advanceTo,← full,← span]
      cases idleSlash d text t with
      | true => exact ih later ((suffix_cons ..).trans within) ((suffix_cons ..).trans within')
      | false => exact ih after (scanStatement_within within) (scanStatement_within within')

end

section
variable (d : SqlDialect) (keywords : List Text) (text : Text) (tokens : List Token)

theorem skipToTerminator_withKeywords : skipToTerminator (d.withKeywords keywords) text = skipToTerminator d text := by
  delta skipToTerminator
  rfl

theorem scanHeader_withKeywords : scanHeader (d.withKeywords keywords) text tokens = scanHeader d text tokens := by
  funext parenDepth cur
  induction cur generalizing parenDepth with
  | nil => rfl
  | cons token rest ih => rw [scanHeader,scanHeader,ih,ih,skipToTerminator_withKeywords]; rfl

theorem splitTokens_withKeywords : splitTokens (d.withKeywords keywords) text tokens = splitTokens d text tokens := by
  delta splitTokens splitTurn
  delta scanStatement
  delta scanStructured scanPlain scanParenDelimited
  delta structuredTurn structuredWord
  -- Every other scan reads its own fields of the dialect only.
  delta scanToTerminator skipEndQualifier
  simp only [scanHeader_withKeywords]
  rfl

end

variable {u : UnicodeTables} {d : SqlDialect} {text text' : Text}

/-- Neither the table of keywords nor the case of the words has a part in the split. -/
theorem split_ignores_case_and_keywords (marks : d.MarksWithoutLetters) (keywords : List Text)
    (variants : CaseVariant u d text text') :
    ∃ spans, splitStatements u d text = some spans ∧ splitStatements u (d.withKeywords keywords) text' = some spans := by
  obtain ⟨ls,ls',lexed,lexed',looks⟩ := variants.lexemes marks keywords
  obtain ⟨_,lexing⟩ := lexemes_lexing lexed
  obtain ⟨_,lexing'⟩ := lexemes_lexing lexed'
  have letters := looksLike_flat looks
  rw [lexing.flat,lexing'.flat] at letters
  have all : Forall₂ (Aligned text text') (tokensFrom [] ls) (tokensFrom [] ls') :=
    tokens_aligned looks (forall₂_refl _) lexing.flat.symm lexing'.flat.symm
  refine ⟨splitTokens d text (tokensFrom [] ls),?_,?_⟩
  · rw [splitStatements,tokenize,lexed]
    rfl
  · have same : splitTokens d text (tokensFrom [] ls) = splitTokens d text' (tokensFrom [] ls') := by
      rw [splitTokens,splitTokens,all.length_eq]
      exact congrArg (·.getD []) (run_aligned letters all all suffix_rfl suffix_rfl)
    rw [splitStatements,tokenize,lexed',same,← splitTokens_withKeywords d keywords]
    rfl

theorem oracleLike_marks (keywords : List Text) : (oracleLike keywords).MarksWithoutLetters where
  lineComment := by rintro _ ⟨⟩; simp
  blockComment := by rintro _ _ ⟨⟩; simp
  directive := by rintro _ ⟨⟩; decide

theorem mixed_case_block :
    ∃ spans, splitStatements asciiTables (oracleLike []) "begin p(Q'[;]'); end;".toList = some spans ∧
      splitStatements asciiTables (oracleLike ["BEGIN".toList]) "BEGIN p(q'[;]'); eNd;".toList = some spans := by
  have lexed : lexText asciiTables (oracleLike []) .normal "begin p(Q'[;]'); end;".toList =
      some ([⟨.identifier,"begin".toList,.normal,.normal⟩,⟨.whitespace,[' '],.normal,.normal⟩,
        ⟨.identifier,['p'],.normal,.normal⟩,⟨.operator,['('],.normal,.normal⟩,
        ⟨.string,"Q'[;]'".toList,.normal,.normal⟩,⟨.operator,[')'],.normal,.normal⟩,
        ⟨.operator,[';'],.normal,.normal⟩,⟨.whitespace,[' '],.normal,.normal⟩,
        ⟨.identifier,"end".toList,.normal,.normal⟩,⟨.operator,[';'],.normal,.normal⟩],.normal) := by decide
  refine split_ignores_case_and_keywords (oracleLike_marks []) ["BEGIN".toList]
    ⟨_,_,["BEGIN"," ","p","(","q'[;]'",")",";"," ","eNd",";"].map String.toList,lexed,?_,by decide⟩
  simp only [map_cons,map_nil,forall₂_cons,forall₂_nil_left_iff,Lexeme.Recased,sameLetters_iff]
  decide

def remComments : SqlDialect :=
  { oracleLike [] with comments := { (oracleLike []).comments with lineComment := some "REM".toList } }

theorem rem_is_read_by_case : CaseVariant asciiTables remComments "rem a; b".toList "REM a; b".toList ∧
    splitStatements asciiTables remComments "rem a; b".toList ≠
      splitStatements asciiTables remComments "REM a; b".toList := by
  have lexed : lexText asciiTables remComments .normal "rem a; b".toList =
      some ([⟨.identifier,"rem".toList,.normal,.normal⟩,⟨.whitespace,[' '],.normal,.normal⟩,
        ⟨.identifier,['a'],.normal,.normal⟩,⟨.operator,[';'],.normal,.normal⟩,⟨.whitespace,[' '],.normal,.normal⟩,
        ⟨.identifier,['b'],.normal,.normal⟩],.normal) := by decide
  refine ⟨⟨_,_,["REM"," ","a",";"," ","b"].map String.toList,lexed,?_,by decide⟩,by decide⟩
  simp only [map_cons,map_nil,forall₂_cons,forall₂_nil_left_iff,Lexeme.Recased,sameLetters_iff]
  decide

end Reldex
