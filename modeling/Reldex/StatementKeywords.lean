import Reldex.ResultStore
import Reldex.UpstreamScan

/-! The leading keywords of a statement and what the driver takes the statement for. The first
keyword is to be the one the Oracle crate finds with its own loop; it is, unless a line comment
is followed by a line that starts with a single dash. -/
namespace Reldex.OracleThin
open List Bool Nat

section
variable (u : UnicodeTables)

structure Classification where
  kind : Driver.StatementKind
  returnsRows : Bool
  isPlsql : Bool
  deriving DecidableEq, Repr

/-- `after.find('\n').map_or("", |end| &after[end + 1..])` -/
def afterLine (after : Text) : Text := (after.dropWhile (· != '\n')).drop 1

/-- `after.find("*/").map_or("", |end| &after[end + 2..])` -/
def afterComment : Text → Text
  | [] => []
  | c :: rest => if startsWith (c :: rest) ['*','/'] then rest.drop 1 else afterComment rest

def noiseTurn (rest : Text) : Turn Text Text :=
  let rest := trimStart (rest.dropWhile (· == '\ufeff'))
  if startsWith rest ['-','-'] then .next (afterLine (rest.drop 2))
  else if startsWith rest ['/','*'] then .next (afterComment (rest.drop 2))
  else .done rest

def skipNoise (rest : Text) : Text := (Turn.run noiseTurn (rest.length + 1) rest).getD []

/-- The first run of letters, in upper case, and what follows it. -/
def leadingWord (rest : Text) : Text × Text :=
  (upper u (rest.takeWhile Char.isAlpha),rest.dropWhile Char.isAlpha)

def firstTurn (rest : Text) : Turn Text (Option (Text × Text)) :=
  match skipNoise rest with
  | [] => .done none
  | head :: after =>
    if head.isAlpha then .done (some (leadingWord u (head :: after)))
    else if head == '\'' || head == '"' then .next ((after.dropWhile (· != head)).drop 1)
    else .next after

/-- The first ASCII-letter run, skipping everything the Oracle crate skips. -/
def firstWord (rest : Text) : Option (Text × Text) :=
  (Turn.run (firstTurn u) (rest.length + 1) rest).getD none

structure Keywords where
  rest : Text
  atFirst : Bool

def Keywords.new (sql : Text) : Keywords := ⟨sql,true⟩

def isIdentifierChar (c : Char) : Bool := u.isAlphanumeric c || c == '_' || c == '$' || c == '#'

def Keywords.next (words : Keywords) : Option Text × Keywords :=
  if words.atFirst then
    match firstWord u words.rest with
    | some (word,rest) => (some word,⟨rest,false⟩)
    | none => (none,⟨[],false⟩)
  else
    let rest := skipNoise words.rest
    let word := rest.takeWhile (isIdentifierChar u)
    if word.isEmpty then (none,⟨rest,false⟩) else (some (upper u word),⟨rest.drop word.length,false⟩)

def oneOf (word : Text) (names : List String) : Bool := (names.map String.toList).contains word

def classify (sql : Text) : Classification :=
  match (Keywords.new sql).next u with
  | (none,_) => ⟨.other,false,false⟩
  | (some first,words) =>
    if oneOf first ["SELECT","WITH"] then ⟨.query,true,false⟩
    else if oneOf first ["INSERT","UPDATE","DELETE","MERGE"] then ⟨.dml,false,false⟩
    else if oneOf first ["BEGIN","DECLARE","CALL"] then ⟨.plSqlBlock,false,true⟩
    else if oneOf first ["COMMIT","ROLLBACK","SAVEPOINT"] then ⟨.transactionControl,false,false⟩
    else if oneOf first ["SET"] then
      let second := (words.next u).1.getD []
      if oneOf second ["TRANSACTION","CONSTRAINT","CONSTRAINTS"] then ⟨.transactionControl,false,false⟩
      else if oneOf second ["ROLE"] then ⟨.sessionControl,false,false⟩
      else ⟨.other,false,false⟩
    else if oneOf first ["ALTER"] then
      let second := (words.next u).1.getD []
      if oneOf second ["SESSION","SYSTEM"] then ⟨.sessionControl,false,false⟩ else ⟨.ddl,false,false⟩
    else if oneOf first ["CREATE","DROP","GRANT","REVOKE","TRUNCATE","COMMENT","ANALYZE","AUDIT","NOAUDIT",
        "RENAME","FLASHBACK","PURGE","ASSOCIATE","DISASSOCIATE"] then ⟨.ddl,false,false⟩
    else ⟨.other,false,false⟩

end

section
variable {u : UnicodeTables} {rest : Text} {c : Char}

theorem afterLine_le (after : Text) : (afterLine after).length ≤ after.length := by
  have shorter := (after.dropWhile_suffix (· != '\n')).length_le
  rw [afterLine,length_drop]
  omega

theorem afterComment_le (after : Text) : (afterComment after).length ≤ after.length := by
  induction after with
  | nil => exact le_rfl
  | cons c rest ih =>
    rw [afterComment]
    split
    · rw [length_drop,length_cons]
      omega
    · exact ih.trans (le_succ _)

def wordTurn (u : UnicodeTables) (rest : Text) : Turn Text (Option (Text × Text)) :=
  match rest with
  | [] => .done none
  | c :: after =>
    if c.isAlpha then .done (some (leadingWord u (c :: after)))
    else if startsWith (c :: after) ['-','-'] then .next (afterLine (after.drop 1))
    else if startsWith (c :: after) ['/','*'] then .next (afterComment (after.drop 1))
    else if c == '\'' || c == '"' then .next ((after.dropWhile (· != c)).drop 1)
    else .next after

theorem noiseTurn_decreasing : Turn.Decreasing noiseTurn length := by
  intro rest next moved
  have trimmed : (trimStart (rest.dropWhile (· == '\ufeff'))).length ≤ rest.length :=
    (dropWhile_suffix _).length_le.trans (dropWhile_suffix _).length_le
  unfold noiseTurn at moved
  generalize trimStart (rest.dropWhile (· == '\ufeff')) = left at trimmed moved
  simp only at moved
  split at moved
  · next dashes =>
    cases moved
    obtain ⟨tail,rfl⟩ := isPrefixOf_iff_prefix.mp dashes
    have := afterLine_le tail
    simp at trimmed ⊢
    omega
  · split at moved
    · next opens =>
      cases moved
      obtain ⟨tail,rfl⟩ := isPrefixOf_iff_prefix.mp opens
      have := afterComment_le tail
      simp at trimmed ⊢
      omega
    · cases moved

def isBlank (c : Char) : Bool := isWhitespace c || c == '\ufeff'

theorem isBlank_cases (blank : isBlank c = true) : c.isAlpha = false ∧ c ≠ '-' ∧ c ≠ '/' ∧ c ≠ '\'' ∧ c ≠ '"' := by
  refine ⟨?_,?_,?_,?_,?_⟩
  · rcases or_eq_true_iff.mp blank with white | mark
    · rw [eq_false_iff]
      intro letter
      simp only [isWhitespace,or_eq_true,and_eq_true,decide_eq_true_eq,beq_iff_eq] at white
      rw [isAlpha_iff] at letter
      omega
    · rw [beq_iff_eq.mp mark]
      rfl
  all_goals
    rintro rfl
    exact absurd blank (by decide)

theorem wordTurn_blank (blank : isBlank c = true) : wordTurn u (c :: rest) = .next rest := by
  obtain ⟨letter,dash,slash,quote,double⟩ := isBlank_cases blank
  simp [wordTurn,startsWith,letter,Ne.symm dash,Ne.symm slash,quote,double]

theorem blanks_reach (blanks : Text) (all : ∀ c ∈ blanks, isBlank c = true) (rest : Text) :
    Turn.Reaches (wordTurn u) (blanks ++ rest) rest := by
  induction blanks with
  | nil => exact .refl
  | cons c blanks ih =>
    obtain ⟨first,later⟩ := forall_mem_cons.mp all
    exact .step (wordTurn_blank first) (ih later)

theorem trimmed_reach (rest : Text) : Turn.Reaches (wordTurn u) rest (trimStart (rest.dropWhile (· == '\ufeff'))) := by
  have marks : ∀ c ∈ rest.takeWhile (· == '\ufeff'), isBlank c = true := fun c member =>
    or_eq_true_iff.mpr (.inr (mem_takeWhile_imp (p := (· == '\ufeff')) member))
  have spaces : ∀ c ∈ (rest.dropWhile (· == '\ufeff')).takeWhile isWhitespace, isBlank c = true := fun c member =>
    or_eq_true_iff.mpr (.inl (mem_takeWhile_imp member))
  have first := blanks_reach (u := u) _ marks (rest.dropWhile (· == '\ufeff'))
  have second := blanks_reach (u := u) _ spaces (trimStart (rest.dropWhile (· == '\ufeff')))
  rw [takeWhile_append_dropWhile] at first
  rw [trimStart,takeWhile_append_dropWhile] at second
  exact first.trans second

theorem noise_reaches (ended : Turn.Ends noiseTurn rest left) : Turn.Reaches (wordTurn u) rest left := by
  obtain ⟨last,path,returned⟩ := ended
  have single {rest next : Text} (moved : noiseTurn rest = .next next) : Turn.Reaches (wordTurn u) rest next := by
    refine (trimmed_reach rest).trans (.single ?_)
    unfold noiseTurn at moved
    generalize trimStart (rest.dropWhile (· == '\ufeff')) = left at moved
    simp only at moved
    split at moved
    · next dashes =>
      cases moved
      obtain ⟨tail,rfl⟩ := isPrefixOf_iff_prefix.mp dashes
      rfl
    · split at moved
      · next opens =>
        cases moved
        obtain ⟨tail,rfl⟩ := isPrefixOf_iff_prefix.mp opens
        rfl
      · cases moved
  have stops : left = trimStart (last.dropWhile (· == '\ufeff')) := by
    unfold noiseTurn at returned
    simp only at returned
    split at returned
    · cases returned
    · split at returned <;> cases returned
      rfl
  rw [stops]
  refine Turn.Reaches.trans ?_ (trimmed_reach last)
  clear returned stops
  induction path with
  | refl => exact .refl
  | step moved _ ih => exact (single moved).trans ih

theorem skipNoise_spec (rest : Text) : Turn.Reaches (wordTurn u) rest (skipNoise rest) ∧
    startsWith (skipNoise rest) ['-','-'] = false ∧ startsWith (skipNoise rest) ['/','*'] = false := by
  obtain ⟨left,ran⟩ := Turn.run_total noiseTurn_decreasing (lt_succ_self rest.length)
  have same : skipNoise rest = left := by rw [skipNoise,ran]; rfl
  have ended := Turn.ends_of_run ran
  rw [same]
  refine ⟨noise_reaches ended,?_⟩
  obtain ⟨last,_,returned⟩ := ended
  unfold noiseTurn at returned
  simp only at returned
  split at returned
  · cases returned
  · split at returned
    · cases returned
    · next dashes opens =>
      cases returned
      exact ⟨eq_false_iff.mpr dashes,eq_false_iff.mpr opens⟩

theorem firstTurn_eq (rest : Text) : firstTurn u rest = wordTurn u (skipNoise rest) := by
  obtain ⟨_,dashes,opens⟩ := skipNoise_spec (u := u) rest
  unfold firstTurn
  cases left : skipNoise rest with
  | nil => rfl
  | cons head after =>
    rw [left] at dashes opens
    simp only [wordTurn,dashes,opens,false_eq_true,if_false]

theorem wordTurn_decreasing (u : UnicodeTables) : Turn.Decreasing (wordTurn u) length := by
  intro rest next moved
  unfold wordTurn at moved
  cases rest with
  | nil => cases moved
  | cons c after =>
    have line := afterLine_le (after.drop 1)
    have comment := afterComment_le (after.drop 1)
    have quoted := (after.dropWhile_suffix (· != c)).length_le
    rw [length_drop] at line comment
    simp only at moved
    repeat' split at moved
    all_goals cases moved
    all_goals
      simp only [length_cons,length_drop]
      omega

theorem skipNoise_le (rest : Text) : (skipNoise rest).length ≤ rest.length := by
  obtain ⟨path,_⟩ := skipNoise_spec (u := asciiTables) rest
  refine path.invariant (·.length ≤ rest.length) (fun s t before moved => ?_) le_rfl
  have := wordTurn_decreasing asciiTables s t moved
  omega

theorem firstWord_ends (u : UnicodeTables) (rest : Text) : Turn.Ends (wordTurn u) rest (firstWord u rest) := by
  have decreasing : Turn.Decreasing (firstTurn u) length := by
    intro rest next moved
    rw [firstTurn_eq] at moved
    exact (wordTurn_decreasing u _ _ moved).trans_le (skipNoise_le rest)
  obtain ⟨word,ran⟩ := Turn.run_total decreasing (lt_succ_self rest.length)
  have same : firstWord u rest = word := by rw [firstWord,ran]; rfl
  obtain ⟨last,path,returned⟩ := Turn.ends_of_run ran
  rw [same]
  rw [firstTurn_eq] at returned
  have reached : Turn.Reaches (wordTurn u) rest last := by
    clear returned ran same
    induction path with
    | refl => exact .refl
    | step moved _ ih =>
      rw [firstTurn_eq] at moved
      exact (skipNoise_spec _).1.trans (.step moved ih)
  exact .before (reached.trans (skipNoise_spec last).1) ⟨_,.refl,returned⟩

end

variable {u : UnicodeTables} {text rest : Text} {s : RowsState} {c : Char}

/-- The loop is at the second dash of a line comment, and the next line starts with one dash. -/
def RowsState.DashFollows (text : Text) (s : RowsState) : Prop :=
  s.lastCh = '-' ∧ ∃ comment rest, text.drop s.position = '-' :: comment ++ '\n' :: '-' :: rest ∧ '\n' ∉ comment ∧
    rest.head? ≠ some '-'

/-- The loop of the Oracle crate has come to `rest`, and its last character opens nothing there. -/
structure Follows (u : UnicodeTables) (text rest : Text) (s : RowsState) : Prop where
  reached : Turn.Reaches (rowsTurn u text) rowsStart s
  left : text.drop s.position = rest
  keyword : s.keywordStart = none
  alpha : s.lastWasAlpha = false
  dash : s.lastCh = '-' → rest.head? = some '-' → startsWith rest ['-','-'] = true
  slash : s.lastCh = '/' → rest.head? ≠ some '*'

theorem rowsTurn_plain (left : text.drop s.position = c :: rest) (keyword : s.keywordStart = none)
    (alpha : s.lastWasAlpha = false) (letter : c.isAlpha = false) :
    rowsTurn u text s = .next ⟨rowsMoved text c s.lastCh s.position + 1,none,false,c⟩ := by
  simp [rowsTurn,left,keyword,alpha,letter]

theorem drop_seek (text : Text) (stop : Char) (position : Nat) :
    text.drop (seek text stop position + 1) = ((text.drop position).dropWhile (· != stop)).drop 1 := by
  rw [seek,← drop_drop,← drop_drop,Number.drop_leading]

theorem drop_comment (rest : Text) : rest.drop (commentLen rest + 2) = afterComment rest := by
  fun_induction commentLen rest with
  | case1 => rfl
  | case2 c => simp [afterComment,startsWith]
  | case3 c next rest ends =>
    obtain ⟨rfl,rfl⟩ : c = '*' ∧ next = '/' := by simpa using ends
    rfl
  | case4 c next rest open_ ih =>
    have more : startsWith (c :: next :: rest) ['*','/'] = false := by
      rw [eq_false_iff]
      intro starts
      simp [startsWith] at starts open_
      exact open_ starts.1.symm starts.2.symm
    rw [afterComment,more,if_neg (by decide),← ih,add_comm 1,add_right_comm]
    rfl

theorem drop_next (left : text.drop position = c :: rest) : text.drop (position + 1) = rest := by
  rw [← drop_drop,left]
  rfl

theorem eq_of_afterLine (next : afterLine rest = c :: later) :
    ∃ comment, rest = comment ++ '\n' :: c :: later ∧ '\n' ∉ comment := by
  refine ⟨rest.takeWhile (· != '\n'),?_,fun member => ?_⟩
  · cases stop : rest.dropWhile (· != '\n') with
    | nil => rw [afterLine,stop] at next; cases next
    | cons first tail =>
      obtain rfl : first = '\n' := by simpa [stop] using head?_dropWhile_not (· != '\n') rest
      rw [afterLine,stop] at next
      rw [← next,drop_one,tail_cons,← stop,takeWhile_append_dropWhile]
  · have := mem_takeWhile_imp (p := (· != '\n')) member
    simp at this

theorem Follows.line (quiet : ∀ s, Turn.Reaches (rowsTurn u text) rowsStart s → ¬ s.DashFollows text)
    (reached : Turn.Reaches (rowsTurn u text) rowsStart s) (left : text.drop s.position = '-' :: rest)
    (keyword : s.keywordStart = none) (alpha : s.lastWasAlpha = false) (dash : s.lastCh = '-') :
    ∃ t, Turn.Reaches (rowsTurn u text) s t ∧ Follows u text (afterLine rest) t := by
  have moved : rowsTurn u text s = .next _ := rowsTurn_plain left keyword alpha rfl
  have behind : text.drop (rowsMoved text '-' s.lastCh s.position + 1) = afterLine rest := by
    rw [rowsMoved_line ⟨rfl,dash⟩,drop_seek,left]
    rfl
  refine ⟨_,.single moved,reached.trans (.single moved),behind,rfl,rfl,fun _ starts => ?_,nofun⟩
  by_contra single
  obtain ⟨more,next⟩ := head?_eq_some_iff.mp starts
  obtain ⟨comment,same,oneLine⟩ := eq_of_afterLine next
  refine quiet s reached ⟨dash,comment,more,by rw [left,same]; rfl,oneLine,fun again => single ?_⟩
  obtain ⟨later,rfl⟩ := head?_eq_some_iff.mp again
  rw [next]
  rfl

theorem Follows.character (here : Follows u text (c :: rest) s) (letter : c.isAlpha = false)
    (dashes : startsWith (c :: rest) ['-','-'] = false) (opens : startsWith (c :: rest) ['/','*'] = false)
    (plain : c ≠ '\'' ∧ c ≠ '"') : ∃ t, Turn.Reaches (rowsTurn u text) s t ∧ Follows u text rest t := by
  have moved : rowsTurn u text s = .next _ := rowsTurn_plain here.left here.keyword here.alpha letter
  have stays : rowsMoved text c s.lastCh s.position = s.position := by
    have noLine : ¬ (c = '-' ∧ s.lastCh = '-') := by
      rintro ⟨rfl,last⟩
      rw [here.dash last rfl] at dashes
      cases dashes
    have noComment : ¬ (c = '*' ∧ s.lastCh = '/') := by
      rintro ⟨rfl,last⟩
      exact here.slash last rfl
    simp [rowsMoved,plain,noLine,noComment]
  refine ⟨_,.single moved,here.reached.trans (.single moved),?_,rfl,rfl,?_,?_⟩
  · rw [stays]
    exact drop_next here.left
  · rintro rfl starts
    obtain ⟨more,rfl⟩ := head?_eq_some_iff.mp starts
    cases dashes
  · rintro rfl starts
    obtain ⟨more,rfl⟩ := head?_eq_some_iff.mp starts
    cases opens

theorem Follows.quoted (here : Follows u text (c :: rest) s) (quote : c = '\'' ∨ c = '"') :
    ∃ t, Turn.Reaches (rowsTurn u text) s t ∧ Follows u text ((rest.dropWhile (· != c)).drop 1) t := by
  have letter : c.isAlpha = false := by rcases quote with rfl | rfl <;> rfl
  have moved : rowsTurn u text s = .next _ := rowsTurn_plain here.left here.keyword here.alpha letter
  have skips : rowsMoved text c s.lastCh s.position = seek text c (s.position + 1) := by
    rcases quote with rfl | rfl <;> rfl
  refine ⟨_,.single moved,here.reached.trans (.single moved),?_,rfl,rfl,?_,?_⟩
  · rw [skips,drop_seek,drop_next here.left]
  all_goals
    rintro rfl
    rcases quote with same | same <;> cases same

theorem Follows.comment (here : Follows u text ('/' :: '*' :: rest) s) :
    ∃ t, Turn.Reaches (rowsTurn u text) s t ∧ Follows u text (afterComment rest) t := by
  have moved : rowsTurn u text s = .next ⟨s.position + 1,none,false,'/'⟩ :=
    rowsTurn_plain here.left here.keyword here.alpha rfl
  have left : text.drop (s.position + 1) = '*' :: rest := drop_next here.left
  have again : rowsTurn u text ⟨s.position + 1,none,false,'/'⟩ = .next _ := rowsTurn_plain left rfl rfl rfl
  have path := (Turn.Reaches.single moved).trans (.single again)
  refine ⟨_,path,here.reached.trans path,?_,rfl,rfl,nofun,nofun⟩
  have behind : text.drop (s.position + 1 + 1) = rest := drop_next left
  have size := congrArg length behind
  rw [length_drop] at size
  have skips : rowsMoved text '*' '/' (s.position + 1) =
      min (s.position + 1 + 1 + commentLen rest + 1) text.length := by
    simp [rowsMoved,behind]
    intro blank
    exact absurd blank (by decide)
  simp only [skips]
  rw [← drop_comment]
  rcases le_total (s.position + 1 + 1 + commentLen rest + 1) text.length with short | long
  · rw [min_eq_left short,add_assoc,add_assoc _ (commentLen rest),← drop_drop,behind]
  · rw [min_eq_right long,drop_eq_nil_of_le (by omega),drop_eq_nil_of_le (by omega)]

theorem Follows.turn {next : Text} (quiet : ∀ s, Turn.Reaches (rowsTurn u text) rowsStart s → ¬ s.DashFollows text)
    (here : Follows u text rest s) (moved : wordTurn u rest = .next next) :
    ∃ t, Turn.Reaches (rowsTurn u text) s t ∧ Follows u text next t := by
  cases rest with
  | nil => cases moved
  | cons c rest =>
    simp only [wordTurn] at moved
    split at moved
    · cases moved
    · next letter =>
      split at moved
      · next dashes =>
        obtain ⟨more,same⟩ := isPrefixOf_iff_prefix.mp dashes
        cases same
        cases moved
        by_cases last : s.lastCh = '-'
        · have ends : ∃ t, Turn.Reaches (rowsTurn u text) s t ∧ Follows u text (afterLine ('-' :: more)) t :=
            Follows.line quiet here.reached here.left here.keyword here.alpha last
          exact ends
        · have first : rowsTurn u text s = .next ⟨s.position + 1,none,false,'-'⟩ := by
            rw [rowsTurn_plain here.left here.keyword here.alpha rfl]
            simp [rowsMoved,last]
          obtain ⟨t,path,follows⟩ := Follows.line quiet (here.reached.trans (.single first)) (drop_next here.left) rfl rfl rfl
          exact ⟨t,.step first path,follows⟩
      · next dashes =>
        split at moved
        · next opens =>
          obtain ⟨more,same⟩ := isPrefixOf_iff_prefix.mp opens
          cases same
          cases moved
          exact here.comment
        · next opens =>
          split at moved
          · next quote =>
            cases moved
            exact here.quoted (by simpa using quote)
          · next plain =>
            cases moved
            exact here.character (eq_false_iff.mpr letter) (eq_false_iff.mpr dashes)
              (eq_false_iff.mpr opens) (by simpa using plain)

theorem rowsMoved_letter (last : Char) (position : Nat) (letter : c.isAlpha = true) :
    rowsMoved text c last position = position := by
  have plain : c ≠ '\'' ∧ c ≠ '-' ∧ c ≠ '*' ∧ c ≠ '"' := by
    refine ⟨?_,?_,?_,?_⟩ <;> rintro rfl <;> exact absurd letter (by decide)
  simp [rowsMoved,plain]

theorem keyword_ends (letters : ∀ c ∈ word, c.isAlpha = true)
    (stops : ∀ c ∈ rest.head?, c.isAlpha = false) (left : text.drop position = word ++ rest) (before : start ≤ position) :
    Turn.Ends (rowsTurn u text) ⟨position,some start,true,last⟩
      (isRowKeyword u ((text.drop start).take (position + word.length - start))) := by
  induction word generalizing position last with
  | nil =>
    cases rest with
    | nil =>
      refine ⟨_,.refl,?_⟩
      have size := congrArg length left
      simp only [length_drop,append_nil,length_nil] at size
      have all : (text.drop start).take (position + 0 - start) = text.drop start :=
        take_of_length_le (by rw [length_drop]; omega)
      rw [length_nil,all]
      simp [rowsTurn,left]
    | cons c rest =>
      refine ⟨_,.refl,?_⟩
      have stop := stops c rfl
      rw [nil_append] at left
      simp [rowsTurn,left,stop,drop_take]
  | cons c word ih =>
    obtain ⟨letter,letters⟩ := forall_mem_cons.mp letters
    have moved : rowsTurn u text ⟨position,some start,true,last⟩ = .next ⟨position + 1,some start,true,c⟩ := by
      simp [rowsTurn,left,letter,rowsMoved_letter]
    have ends : Turn.Ends (rowsTurn u text) ⟨position + 1,some start,true,c⟩ _ := ih letters (drop_next left) (by omega)
    rw [length_cons,← add_assoc,add_right_comm]
    exact .before (.single moved) ends

theorem isRowKeyword_eq (keyword : Text) : isRowKeyword u keyword = oneOf (upper u keyword) ["SELECT","WITH"] := by
  rw [Bool.eq_iff_iff]
  simp [isRowKeyword,oneOf]

theorem Follows.ends (here : Follows u text rest s) (done : wordTurn u rest = .done word) :
    Turn.Ends (rowsTurn u text) s (word.any (oneOf ·.1 ["SELECT","WITH"])) := by
  cases rest with
  | nil =>
    cases done
    exact ⟨s,.refl,by simp [rowsTurn,here.left,here.keyword]⟩
  | cons c rest =>
    simp only [wordTurn] at done
    split at done
    · next letter =>
      cases done
      have keyword : (c :: rest).takeWhile Char.isAlpha = c :: rest.takeWhile Char.isAlpha := by
        rw [takeWhile_cons,if_pos letter]
      have cut := (takeWhile_append_dropWhile (p := Char.isAlpha) (l := rest)).symm
      have left : text.drop (s.position + 1) = _ := (drop_next here.left).trans cut
      have moved : rowsTurn u text s = .next ⟨s.position + 1,some s.position,true,c⟩ := by
        simp [rowsTurn,here.left,letter,here.alpha,rowsMoved_letter]
      have ends : Turn.Ends (rowsTurn u text) ⟨s.position + 1,some s.position,true,c⟩ _ :=
        keyword_ends (fun _ member => mem_takeWhile_imp member) (fun c member => ?_) left (le_succ _)
      · have size : s.position + 1 + (rest.takeWhile Char.isAlpha).length - s.position =
            ((c :: rest).takeWhile Char.isAlpha).length := by
          rw [keyword,length_cons]
          omega
        have word : (c :: rest).take ((c :: rest).takeWhile Char.isAlpha).length = (c :: rest).takeWhile Char.isAlpha :=
          (prefix_iff_eq_take.mp (List.takeWhile_prefix _)).symm
        rw [size,here.left,word] at ends
        rw [isRowKeyword_eq] at ends
        exact .before (.single moved) ends
      · have stop := head?_dropWhile_not Char.isAlpha rest
        rw [Option.mem_def.mp member] at stop
        exact stop
    · repeat' split at done
      all_goals cases done

theorem classify_returnsRows (u : UnicodeTables) (sql : Text) :
    (classify u sql).returnsRows = (firstWord u sql).any (oneOf ·.1 ["SELECT","WITH"]) := by
  cases found : firstWord u sql with
  | none => simp [classify,Keywords.new,Keywords.next,found]
  | some word =>
    cases row : oneOf word.1 ["SELECT","WITH"] with
    | true => simp [classify,Keywords.new,Keywords.next,found,row]
    | false =>
      simp only [classify,Keywords.new,Keywords.next,found,if_true,row,false_eq_true,if_false,Option.any_some]
      repeat' split
      all_goals rfl

/-- The classifier routes a statement as the Oracle crate does, unless a line comment is followed by a
line that starts with a single dash. -/
theorem classify_matches_upstream (quiet : ∀ s, Turn.Reaches (rowsTurn u text) rowsStart s → ¬ s.DashFollows text) :
    (classify u text).returnsRows = upstreamWouldReturnRows u text := by
  obtain ⟨last,path,done⟩ := firstWord_ends u text
  have start : Follows u text text rowsStart := ⟨.refl,rfl,rfl,rfl,nofun,nofun⟩
  obtain ⟨s,reached,follows⟩ := path.simulate (Follows u text) (fun _ _ _ here moved => here.turn quiet moved) start
  have ends := Turn.Ends.before reached (follows.ends done)
  have ran := (Turn.run_iff_ends (rowsTurn_decreasing u text) (lt_succ_self _)).mpr ends
  rw [classify_returnsRows,upstreamWouldReturnRows]
  exact (congrArg (·.getD false) ran).symm

theorem query_behind_comments : (classify asciiTables "--x\n--y\n/**/ select 1".toList).returnsRows =
    upstreamWouldReturnRows asciiTables "--x\n--y\n/**/ select 1".toList := by
  refine classify_matches_upstream fun s _ follows => ?_
  obtain ⟨_,comment,rest,left,_,single⟩ := follows
  have inside : '\n' :: '-' :: rest <:+ "--x\n--y\n/**/ select 1".toList :=
    (left ▸ suffix_append _ _ : _ <:+ drop s.position _).trans (drop_suffix ..)
  simp [suffix_cons_iff] at inside
  exact single (by rw [inside]; rfl)

/-- The line behind the comment is a comment for the Oracle crate, and a query for the classifier. -/
theorem dash_line_is_routed_apart : (classify asciiTables "--x\n-SELECT 1 FROM dual".toList).returnsRows = true ∧
    upstreamWouldReturnRows asciiTables "--x\n-SELECT 1 FROM dual".toList = false := by
  decide

end Reldex.OracleThin
