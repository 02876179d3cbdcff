import Reldex.SplitterView

/-! PL/SQL text as the structured scan meets it. A piece is a run of visible tokens that
the scan takes as one: a token without structure, a parenthesised group, a word that opens
a block, an `END` with its terminator, the header of a member. `Counters.advance` says what
each does to the counters of the scan. -/
namespace Reldex
open List Option Bool Nat

/-- The words the block tables of a dialect react to. `IS` and `AS` are not among them;
any statement may use those. -/
def SqlDialect.structuralWords (d : SqlDialect) : List Text :=
  d.blockEndKeyword :: d.blockBodyOpener :: d.blockNestingOpeners ++ d.subprogramHeaderKeywords ++
    d.bodyLessMarkers ++ (d.sectionedBodyMarker.toList ++ d.callSpecPhrases ++ d.bodyIntroExceptions).filterMap
      head?

def semi : Sig := .operator [';'] false
def leftParen : Sig := .operator ['('] false
def rightParen : Sig := .operator [')'] false

def Sig.quiet (d : SqlDialect) : Sig → Bool
  | .word w => !wordIn d.structuralWords w
  | .operator spelling lone => !lone && spelling != ['('] && spelling != [')']
  | .directive => true
  | .unread => true

/-- Balanced parentheses and no lone `/` line; the words do not matter. -/
inductive Balanced : List Sig → Prop where
  | nil : Balanced []
  | silent : View.parenChange s = 0 → View.isLone s = false → Balanced rest → Balanced (s :: rest)
  | group {inner : List Sig} : Balanced inner → Balanced rest → Balanced (leftParen :: inner ++ rightParen :: rest)

inductive Opener where
  | ifThen | loop | case
  deriving DecidableEq, Repr

def Opener.word : Opener → Text
  | .ifThen => "if".toList
  | .loop => "loop".toList
  | .case => "case".toList

inductive Member where
  | procedure | function
  deriving DecidableEq, Repr

def Member.word : Member → Text
  | .procedure => "procedure".toList
  | .function => "function".toList

inductive Intro where
  | is | as
  deriving DecidableEq, Repr

def Intro.word : Intro → Text
  | .is => "is".toList
  | .as => "as".toList

/-- What stands between the keyword of a member and its `IS`, `AS` or terminator. -/
inductive Signature (d : SqlDialect) : List Sig → Prop where
  | nil : Signature d []
  | plain : s.quiet d = true → View.isTerminator d s = false →
      (∀ w, s = .word w → wordIn d.bodyIntroKeywords w = false) → Signature d rest → Signature d (s :: rest)
  | group {inner : List Sig} : Balanced inner → Signature d rest → Signature d (leftParen :: inner ++ rightParen :: rest)

inductive Piece where
  | plain (s : Sig)
  | group (inner : List Sig)
  | opener (o : Opener)
  | begin
  | close (name : Option Sig)
  | header (keyword : Member) (signature : List Sig) (intro : Intro)
  | forward (keyword : Member) (signature : List Sig)
  deriving DecidableEq, Repr

def beginWord : Sig := .word "begin".toList
def endWord : Sig := .word "end".toList

def Piece.sigs : Piece → List Sig
  | .plain s => [s]
  | .group inner => leftParen :: inner ++ [rightParen]
  | .opener o => [.word o.word]
  | .begin => [beginWord]
  | .close name => endWord :: name.toList ++ [semi]
  | .header keyword signature intro => .word keyword.word :: signature ++ [.word intro.word]
  | .forward keyword signature => .word keyword.word :: signature ++ [semi]

/-- The name after an `END`: a word, or a quoted name, of which only the presence counts. -/
def Sig.isName : Sig → Bool
  | .word _ => true
  | .unread => true
  | _ => false

def Piece.Valid (d : SqlDialect) : Piece → Prop
  | .plain s => s.quiet d = true
  | .group inner => Balanced inner
  | .opener _ => True
  | .begin => True
  | .close name => ∀ s ∈ name, s.isName = true
  | .header _ signature _ => Signature d signature
  | .forward _ signature => Signature d signature

structure Counters where
  depth : Nat
  pending : Nat
  absorbed : Bool
  deriving DecidableEq, Repr

def Counters.state (c : Counters) (rest : List Sig) : View.State :=
  ⟨rest,.ofNat c.depth,.ofNat c.pending,c.absorbed,false,0⟩

def Counters.openBody (c : Counters) : Counters :=
  if 0 < c.pending && c.depth == 0 then { c with pending := c.pending - 1, depth := c.depth + 1 }
  else if c.depth == 0 && !c.absorbed then { c with absorbed := true }
  else { c with depth := c.depth + 1 }

/-- What a piece does; nothing is said of an `END` at depth zero. -/
def Counters.advance (c : Counters) : Piece → Option Counters
  | .plain _ | .group _ | .forward _ _ => some c
  | .opener _ => some { c with depth := c.depth + 1 }
  | .begin => some c.openBody
  | .close _ => if c.depth = 0 then none else some { c with depth := c.depth - 1 }
  | .header _ _ _ => some { c with pending := c.pending + 1 }

def Counters.run (c : Counters) (pieces : List Piece) : Option Counters := pieces.foldlM advance c

def tokensOf (pieces : List Piece) : List Sig := pieces.flatMap Piece.sigs

@[simp] theorem tokensOf_nil : tokensOf [] = [] := rfl
@[simp] theorem tokensOf_cons (p : Piece) (ps : List Piece) : tokensOf (p :: ps) = p.sigs ++ tokensOf ps := rfl
@[simp] theorem tokensOf_append (a b : List Piece) : tokensOf (a ++ b) = tokensOf a ++ tokensOf b := by
  simp [tokensOf]

@[simp] theorem Counters.run_nil (c : Counters) : c.run [] = some c := rfl
@[simp] theorem Counters.run_cons (c : Counters) (p : Piece) (ps : List Piece) :
    c.run (p :: ps) = (c.advance p).bind (·.run ps) := rfl
theorem Counters.run_append (c : Counters) (a b : List Piece) : c.run (a ++ b) = (c.run a).bind (·.run b) := by
  simp [run,foldlM_append]

/-- The scan stands before `rest`. What it has counted it has read, so that the counters of a view
of less than `2 ^ 31` tokens do not wrap. -/
structure Counters.At (c : Counters) (rest whole : List Sig) : Prop where
  tail : rest <:+ whole
  fits : c.depth + c.pending + rest.length < 2 ^ 31

/-- The next `BEGIN` nests: the scan is in a block, or in the unit's own body with nothing
owed. -/
def Counters.Nested (c : Counters) : Prop := 0 < c.depth ∨ (c.absorbed = true ∧ c.pending = 0)

theorem Counters.openBody_nested {c : Counters} (nested : c.Nested) : c.openBody = { c with depth := c.depth + 1 } := by
  unfold Counters.openBody
  rcases nested with deep | ⟨absorbed,settled⟩
  · have away : (c.depth == 0) = false := beq_false_of_ne (by omega)
    simp [away]
  · simp [absorbed,settled]

theorem Counters.openBody_owed (pending : Nat) (absorbed : Bool) :
    Counters.openBody ⟨0,pending + 1,absorbed⟩ = ⟨1,pending,absorbed⟩ := rfl

theorem Counters.At.start (tail : rest <:+ whole) (short : whole.length < 2 ^ 31) (absorbed : Bool) :
    Counters.At ⟨0,0,absorbed⟩ rest whole :=
  ⟨tail,by simpa using lt_of_le_of_lt tail.length_le short⟩

theorem Counters.At.skip {c : Counters} (here : c.At (front ++ rest) whole) : c.At rest whole := by
  refine ⟨(suffix_append ..).trans here.tail,lt_of_le_of_lt ?_ here.fits⟩
  simp

theorem Piece.sigs_pos (p : Piece) : 0 < p.sigs.length := by cases p <;> simp [Piece.sigs]

theorem advance_at {c c' : Counters} (moved : c.advance p = some c') (here : c.At (p.sigs ++ rest) whole) :
    c'.At rest whole := by
  have once : c'.depth + c'.pending ≤ c.depth + c.pending + 1 := by
    cases p with
    | begin =>
      cases moved
      unfold Counters.openBody
      split
      · simp only
        omega
      · split <;> simp only <;> omega
    | close name =>
      simp only [Counters.advance,ite_none_left_eq_some,some.injEq] at moved
      rw [← moved.2]
      simp only
      omega
    | opener o => cases moved; simp only; omega
    | header keyword signature intro => cases moved; simp only; omega
    | _ => cases moved; omega
  have read := p.sigs_pos
  have fits := here.fits
  rw [length_append] at fits
  exact ⟨here.skip.tail,by omega⟩

theorem run_at {c c' : Counters} (ran : c.run pieces = some c') (here : c.At (tokensOf pieces ++ rest) whole) :
    c'.At rest whole := by
  induction pieces generalizing c with
  | nil => cases ran; exact here
  | cons p pieces ih =>
    obtain ⟨next,moved,later⟩ := bind_eq_some_iff.mp ran
    rw [tokensOf_cons,append_assoc] at here
    exact ih later (advance_at moved here)

/-- Counters that stand deeper stay deeper, and nothing is closed early. -/
theorem advance_deeper {c c' deep : Counters} (moved : c.advance p = some c') (positive : 0 < gap)
    (deeper : c.depth + gap ≤ deep.depth) : ∃ deep', deep.advance p = some deep' ∧ c'.depth + gap ≤ deep'.depth := by
  cases p with
  | begin =>
    refine ⟨_,rfl,?_⟩
    have once : c'.depth ≤ c.depth + 1 := by
      rw [← some.inj moved]
      unfold Counters.openBody
      split
      · exact le_refl _
      · split <;> simp
    rw [Counters.openBody_nested (.inl (by omega))]
    simp only
    omega
  | close name =>
    simp only [Counters.advance,ite_none_left_eq_some,some.injEq] at moved
    obtain ⟨inside,rfl⟩ := moved
    refine ⟨_,if_neg (by omega),?_⟩
    simp only
    omega
  | opener o =>
    cases moved
    refine ⟨_,rfl,?_⟩
    simp only
    omega
  | _ => cases moved; exact ⟨_,rfl,deeper⟩

theorem run_deeper {c c' deep : Counters} (ran : c.run pieces = some c') (positive : 0 < gap)
    (deeper : c.depth + gap ≤ deep.depth) : ∃ deep', deep.run pieces = some deep' ∧ c'.depth + gap ≤ deep'.depth := by
  induction pieces generalizing c deep with
  | nil => cases ran; exact ⟨deep,rfl,deeper⟩
  | cons p pieces ih =>
    obtain ⟨next,moved,later⟩ := bind_eq_some_iff.mp ran
    obtain ⟨next',moved',deeper⟩ := advance_deeper moved positive deeper
    obtain ⟨last,ran,deeper⟩ := ih later deeper
    exact ⟨last,by rw [Counters.run_cons,moved']; exact ran,deeper⟩

abbrev Leads (keywords : List Text) (whole : List Sig) := Turn.Reaches (View.structuredTurn (oracleLike keywords) whole)

variable {keywords : List Text} {whole rest inner : List Sig} {c c' : Counters}

structure QuietWord (keywords : List Text) (w : Text) : Prop where
  close : eqIgnoreAsciiCase w (oracleLike keywords).blockEndKeyword = false
  body : eqIgnoreAsciiCase w (oracleLike keywords).blockBodyOpener = false
  opener : wordIn (oracleLike keywords).blockNestingOpeners w = false
  header : isHeaderWord (oracleLike keywords) false w = false
  bodyLess : wordIn (oracleLike keywords).bodyLessMarkers w = false
  compound : eqIgnoreAsciiCase "COMPOUND".toList w = false
  language : eqIgnoreAsciiCase "LANGUAGE".toList w = false
  foreign : eqIgnoreAsciiCase "EXTERNAL".toList w = false
  self : eqIgnoreAsciiCase "SELF".toList w = false

theorem eqIgnoreAsciiCase_comm (a b : Text) : eqIgnoreAsciiCase a b = eqIgnoreAsciiCase b a := by
  rw [eqIgnoreAsciiCase,eqIgnoreAsciiCase,Bool.eq_iff_iff,beq_iff_eq,beq_iff_eq,eq_comm]

theorem quietWord (quiet : Sig.quiet (oracleLike keywords) (.word w) = true) : QuietWord keywords w := by
  simp only [Sig.quiet,SqlDialect.structuralWords,oracleLike,phrase,wordIn,map,filterMap,head?,
    toList,cons_append,nil_append,any_cons,any_nil,Bool.or_false,Bool.not_eq_true',
    or_eq_false_iff] at quiet
  constructor <;>
    simp only [oracleLike,phrase,wordIn,isHeaderWord,map,any_cons,any_nil,Bool.or_false,
      Bool.false_and,eqIgnoreAsciiCase_comm w,quiet]

theorem ofNat_pos (small : n < 2 ^ 31) : 0 < Int32.ofNat n ↔ 0 < n := by
  rw [Int32.lt_iff_toInt_lt,Int32.toInt_ofNat_of_lt small]
  simp

theorem ofNat_zero (small : n < 2 ^ 31) : (Int32.ofNat n == 0) = (n == 0) := by
  rw [Bool.eq_iff_iff,beq_iff_eq,beq_iff_eq,← Int32.toInt_inj,Int32.toInt_ofNat_of_lt small]
  simp

theorem ofNat_owed (small : n < 2 ^ 31) : 0 < UInt32.ofNat n ↔ 0 < n := by
  rw [UInt32.lt_iff_toNat_lt,UInt32.toNat_ofNat_of_lt' (lt_trans small (by decide))]
  rfl

theorem ofNat_succ (n : Nat) : Int32.ofNat n + 1 = Int32.ofNat (n + 1) := (Int32.ofNat_add n 1).symm

theorem ofNat_pred (n : Nat) : Int32.ofNat (n + 1) - 1 = Int32.ofNat n := by
  rw [← ofNat_succ,Int32.add_sub_cancel]

theorem openBody_state (here : c.At view whole) :
    View.openBody ⟨rest,.ofNat c.depth,.ofNat c.pending,c.absorbed,false,0⟩ = c.openBody.state rest := by
  have fits := here.fits
  simp only [View.openBody,Counters.openBody,ofNat_zero (n := c.depth) (by omega),
    ofNat_owed (n := c.pending) (by omega),ofNat_succ]
  split
  · next owed =>
    obtain ⟨owing,same⟩ := exists_eq_succ_of_ne_zero (ne_of_gt (of_decide_eq_true (and_eq_true_iff.mp owed).1))
    have paid : UInt32.ofNat (owing + 1) - 1 = UInt32.ofNat owing := by
      rw [UInt32.ofNat_add]
      exact UInt32.add_sub_cancel ..
    rw [same,succ_eq_add_one,paid]
    rfl
  · split <;> rfl

/-- One turn over a word outside parentheses that ends no unit early: no marker, and no
`IS` or `AS` before a call specification. -/
theorem word_turn (here : c.At (.word w :: rest) whole) (compound : eqIgnoreAsciiCase "COMPOUND".toList w = false)
    (bodyLess : wordIn (oracleLike keywords).bodyLessMarkers w = false)
    (noSpec : wordIn (oracleLike keywords).bodyIntroKeywords w = false ∨
      View.isCallSpec (oracleLike keywords) rest = false) :
    View.structuredTurn (oracleLike keywords) whole (c.state (.word w :: rest)) =
      if isHeaderWord (oracleLike keywords) false w then
        let header := View.scanHeader (oracleLike keywords) whole 0 rest
        .next (Counters.state { c with pending := c.pending + if header.2 then 1 else 0 } header.1)
      else if eqIgnoreAsciiCase w (oracleLike keywords).blockEndKeyword then
        if c.depth == 0 then .done (View.finishStructured (oracleLike keywords) rest)
        else .next (Counters.state { c with depth := c.depth - 1 } (View.skipEndQualifier (oracleLike keywords) rest))
      else if eqIgnoreAsciiCase w (oracleLike keywords).blockBodyOpener then .next (c.openBody.state rest)
      else if wordIn (oracleLike keywords).blockNestingOpeners w then
        .next (Counters.state { c with depth := c.depth + 1 } rest)
      else .next (c.state rest) := by
  have marker : (oracleLike keywords).sectionedBodyMarker.any (View.peekPhrase · (.word w :: rest)) = false := by
    simp only [oracleLike,phrase,map,any_some,View.peekPhrase,compound,Bool.false_and]
  have spec : (View.isBodyIntro (oracleLike keywords) whole w rest &&
      View.isCallSpec (oracleLike keywords) rest) = false := by
    rcases noSpec with other | clear
    · simp [View.isBodyIntro,other]
    · simp [clear]
  have fits := here.fits
  simp only [View.structuredTurn,View.structuredWord,Counters.state,Int32.lt_irrefl,marker,Bool.or_false,bodyLess,
    Bool.and_false,Bool.and_assoc,spec,Bool.false_eq_true,↓reduceIte,ofNat_zero (n := c.depth) (by omega)]
  split
  · rw [UInt32.ofNat_add]
    split <;> rfl
  · split
    · split
      · rfl
      · next deep =>
        obtain ⟨depth,same⟩ := exists_eq_succ_of_ne_zero fun zero => deep (beq_iff_eq.mpr zero)
        rw [same,succ_eq_add_one,ofNat_pred]
        rfl
    · split
      · rw [openBody_state here]
        rfl
      · rw [ofNat_succ]

theorem quiet_turn (here : c.At (.word w :: rest) whole) (quiet : QuietWord keywords w)
    (clear : View.isCallSpec (oracleLike keywords) rest = false) :
    View.structuredTurn (oracleLike keywords) whole (c.state (.word w :: rest)) = .next (c.state rest) := by
  rw [word_turn here quiet.compound quiet.bodyLess (.inr clear)]
  simp only [quiet.header,quiet.close,quiet.body,quiet.opener,false_eq_true,↓reduceIte]

theorem silent_turn (noWord : View.isWord s = false) (noLone : View.isLone s = false) (parens : Int32) :
    View.structuredTurn (oracleLike keywords) whole { c.state (s :: rest) with parenDepth := parens } =
      .next { c.state rest with parenDepth := parens + View.parenChange s } := by
  cases s with
  | word w => cases noWord
  | _ => simp [View.structuredTurn,Counters.state,noLone]

theorem inner_turn (word : View.isWord s = true) (inside : 0 < parens) :
    View.structuredTurn (oracleLike keywords) whole { c.state (s :: rest) with parenDepth := parens } =
      .next { c.state rest with parenDepth := parens } := by
  cases s with
  | word w => simp [View.structuredTurn,Counters.state,inside]
  | _ => cases word

@[simp] theorem leftParen_change : View.parenChange leftParen = 1 := rfl
@[simp] theorem rightParen_change : View.parenChange rightParen = -1 := rfl

theorem ofNat_close (n : Nat) : Int32.ofNat (n + 1) + -1 = Int32.ofNat n := Int32.add_neg_eq_sub.trans (ofNat_pred n)

theorem balanced_reaches (balanced : Balanced inner) (parens : Nat) (inside : 0 < parens)
    (fits : parens + inner.length < 2 ^ 31) (rest : List Sig) :
    Leads keywords whole
      { c.state (inner ++ rest) with parenDepth := .ofNat parens } { c.state rest with parenDepth := .ofNat parens } := by
  induction balanced generalizing parens rest with
  | nil => exact .refl
  | @silent s inner still noLone _ ih =>
    rw [length_cons] at fits
    refine .step ?_ (ih parens inside (by omega) rest)
    by_cases word : View.isWord s = true
    · exact inner_turn word ((ofNat_pos (by omega)).mpr inside)
    · rw [cons_append,silent_turn (by simpa using word) noLone,still,Int32.add_zero]
  | @group inner after _ _ ih ih' =>
    simp only [length_append,length_cons] at fits
    rw [append_assoc,cons_append,cons_append]
    refine .step (silent_turn rfl rfl _) ?_
    rw [leftParen_change,ofNat_succ]
    refine (ih (parens + 1) (by omega) (by omega) _).trans (.step (silent_turn rfl rfl _) ?_)
    rw [rightParen_change,ofNat_close]
    exact ih' parens inside (by omega) rest

theorem scanHeader_paren (noWord : View.isWord s = false) (change : View.parenChange s ≠ 0) (parens : Int32)
    (rest : List Sig) : View.scanHeader (oracleLike keywords) whole parens (s :: rest) =
      View.scanHeader (oracleLike keywords) whole (parens + View.parenChange s) rest := by
  cases s with
  | word w => cases noWord
  | _ => simp [View.scanHeader,change]

theorem balanced_header (balanced : Balanced inner) (parens : Nat) (inside : 0 < parens)
    (fits : parens + inner.length < 2 ^ 31) (rest : List Sig) :
    View.scanHeader (oracleLike keywords) whole (.ofNat parens) (inner ++ rest) =
      View.scanHeader (oracleLike keywords) whole (.ofNat parens) rest := by
  induction balanced generalizing parens rest with
  | nil => rfl
  | @silent s inner still _ _ ih =>
    rw [length_cons] at fits
    have deep : ¬ Int32.ofNat parens ≤ 0 := Int32.not_le.mpr ((ofNat_pos (by omega)).mpr inside)
    rw [← ih parens inside (by omega) rest]
    cases s <;> simp [View.scanHeader,deep,still]
  | @group inner after _ _ ih ih' =>
    simp only [length_append,length_cons] at fits
    rw [append_assoc,cons_append,cons_append,scanHeader_paren rfl (by decide),leftParen_change,ofNat_succ,
      ih (parens + 1) (by omega) (by omega),scanHeader_paren rfl (by decide),rightParen_change,ofNat_close]
    exact ih' parens inside (by omega) rest

theorem quiet_silent (quiet : Sig.quiet (oracleLike keywords) s = true) :
    View.parenChange s = 0 ∧ View.isLone s = false := by
  cases s with
  | operator spelling lone =>
    simp only [Sig.quiet,and_eq_true,not_eq_true',bne_iff_ne,ne_eq] at quiet
    simp [View.parenChange,View.isOperator,View.isLone,quiet]
  | _ => exact ⟨rfl,rfl⟩

section
variable (signature : Signature (oracleLike keywords) front)
include signature

theorem signature_header (fits : front.length < 2 ^ 31) (rest : List Sig) :
    View.scanHeader (oracleLike keywords) whole 0 (front ++ rest) =
      View.scanHeader (oracleLike keywords) whole 0 rest := by
  induction signature with
  | nil => rfl
  | @plain s front quiet noSemi noIntro _ ih =>
    rw [length_cons] at fits
    rw [← ih (by omega)]
    cases s with
    | word w => simp [View.scanHeader,View.isBodyIntro,noIntro w rfl]
    | _ => simp [View.scanHeader,(quiet_silent quiet).1,noSemi]
  | @group inner front balanced _ ih =>
    simp only [length_append,length_cons] at fits
    have one : (0 : Int32) + 1 = .ofNat 1 := rfl
    rw [append_assoc,cons_append,cons_append,scanHeader_paren rfl (by decide),leftParen_change,one,
      balanced_header balanced 1 Nat.one_pos (by omega),scanHeader_paren rfl (by decide),← ih (by omega)]
    rfl

theorem signature_last (before : List Sig) (other : View.peekPhrase (phrase ["SELF"]) before = false) :
    View.peekPhrase (phrase ["SELF"]) (front.reverse ++ before) = false := by
  induction signature generalizing before with
  | nil => exact other
  | @plain s front quiet _ _ _ ih =>
    rw [reverse_cons,append_assoc]
    refine ih _ ?_
    cases s with
    | word w =>
      have self := (quietWord quiet).self
      simp only [phrase,map,singleton_append,View.peekPhrase,self,Bool.false_and]
    | _ => rfl
  | @group inner front _ _ ih =>
    simp only [reverse_append,reverse_cons,append_assoc]
    exact ih _ rfl

theorem header_intro (keyword : Member) (intro : Intro)
    (tail : (.word keyword.word :: front ++ [.word intro.word]) ++ rest <:+ whole) :
    View.isBodyIntro (oracleLike keywords) whole intro.word rest = true := by
  obtain ⟨before,rfl⟩ := tail
  have known : wordIn (oracleLike keywords).bodyIntroKeywords intro.word = true := by cases intro <;> rfl
  have last := signature_last signature (.word keyword.word :: before.reverse) (by cases keyword <;> rfl)
  have exception : View.endsWithPhrase (before ++ ((.word keyword.word :: front ++ [.word intro.word]) ++ rest)) rest
      (phrase ["SELF","AS"]) = false := by
    rw [View.endsWithPhrase,← append_assoc,consumed_front]
    simp only [reverse_append,reverse_cons,reverse_nil,nil_append,append_assoc,cons_append] at last ⊢
    simp only [phrase,map,reverse_cons,reverse_nil,nil_append,singleton_append,View.peekPhrase] at last ⊢
    rw [last,Bool.and_false]
  rw [View.isBodyIntro,known]
  simp only [oracleLike,any_cons,any_nil,exception]
  rfl

end

theorem word_not_callSpec (language : eqIgnoreAsciiCase "LANGUAGE".toList w = false)
    (foreign : eqIgnoreAsciiCase "EXTERNAL".toList w = false) :
    View.isCallSpec (oracleLike keywords) (.word w :: rest) = false := by
  simp only [View.isCallSpec,oracleLike,phrase,map,any_cons,any_nil,View.peekPhrase,language,foreign,
    Bool.false_and,Bool.or_false]

theorem quiet_not_callSpec (quiet : Sig.quiet (oracleLike keywords) s = true) :
    View.isCallSpec (oracleLike keywords) (s :: rest) = false := by
  cases s with
  | word w => exact word_not_callSpec (quietWord quiet).language (quietWord quiet).foreign
  | _ => rfl

theorem end_not_callSpec : View.isCallSpec (oracleLike keywords) (endWord :: rest) = false :=
  word_not_callSpec (by decide) (by decide)

theorem Piece.not_callSpec {p : Piece} (valid : p.Valid (oracleLike keywords)) :
    View.isCallSpec (oracleLike keywords) (p.sigs ++ rest) = false := by
  cases p with
  | plain s => exact quiet_not_callSpec valid
  | group inner => rfl
  | opener o => exact word_not_callSpec (by cases o <;> decide) (by cases o <;> decide)
  | begin => exact word_not_callSpec (by decide) (by decide)
  | close name => exact end_not_callSpec
  | header keyword signature intro =>
    exact word_not_callSpec (by cases keyword <;> decide) (by cases keyword <;> decide)
  | forward keyword signature =>
    exact word_not_callSpec (by cases keyword <;> decide) (by cases keyword <;> decide)

theorem inner_end_turn (here : c.At (endWord :: rest) whole) (deep : c.depth ≠ 0) :
    View.structuredTurn (oracleLike keywords) whole (c.state (endWord :: rest)) =
      .next (Counters.state { c with depth := c.depth - 1 } (View.skipEndQualifier (oracleLike keywords) rest)) := by
  rw [endWord,word_turn here (by decide) rfl (.inl rfl)]
  simp only [beq_iff_eq,deep]
  rfl

theorem close_reaches (named : ∀ s ∈ name, Sig.isName s = true) :
    Leads keywords whole
      (c.state (View.skipEndQualifier (oracleLike keywords) (toList name ++ semi :: rest))) (c.state rest) := by
  cases name with
  | none => exact .refl
  | some s =>
    cases s with
    | word w => exact .refl
    | unread => exact .step (silent_turn rfl rfl 0) (.single (silent_turn rfl rfl 0))
    | operator spelling lone => exact absurd (named _ rfl) (by simp [Sig.isName])
    | directive => exact absurd (named _ rfl) (by simp [Sig.isName])

theorem advance_reaches (valid : p.Valid (oracleLike keywords)) (moved : c.advance p = some c')
    (clear : View.isCallSpec (oracleLike keywords) rest = false) (here : c.At (p.sigs ++ rest) whole) :
    Leads keywords whole (c.state (p.sigs ++ rest)) (c'.state rest) := by
  have fits := here.fits
  rw [length_append] at fits
  cases p with
  | plain s =>
    cases moved
    by_cases word : View.isWord s = true
    · cases s with
      | word w => exact .single (quiet_turn here (quietWord valid) clear)
      | _ => cases word
    · have turn : View.structuredTurn (oracleLike keywords) whole (c.state (s :: rest)) =
          .next { c.state rest with parenDepth := 0 + View.parenChange s } :=
        silent_turn (by simpa using word) (quiet_silent valid).2 0
      rw [(quiet_silent valid).1] at turn
      exact .single turn
  | group inner =>
    cases moved
    have regroup : (Piece.group inner).sigs ++ rest = leftParen :: (inner ++ rightParen :: rest) := by simp [Piece.sigs]
    rw [regroup]
    simp only [Piece.sigs,length_append,length_cons] at fits
    exact .step (silent_turn rfl rfl 0)
      ((balanced_reaches valid 1 Nat.one_pos (by omega) _).trans (.single (silent_turn rfl rfl _)))
  | opener o =>
    cases moved
    refine .single ?_
    cases o <;> exact (word_turn here (by decide) rfl (.inr clear)).trans rfl
  | begin =>
    cases moved
    exact .single ((word_turn here (by decide) rfl (.inr clear)).trans rfl)
  | close name =>
    simp only [Counters.advance,ite_none_left_eq_some,some.injEq] at moved
    obtain ⟨deep,rfl⟩ := moved
    have regroup : (Piece.close name).sigs ++ rest = endWord :: (name.toList ++ semi :: rest) := by simp [Piece.sigs]
    rw [regroup] at here ⊢
    exact .step (inner_end_turn here deep) (close_reaches valid)
  | header keyword signature intro =>
    cases moved
    have regroup : (Piece.header keyword signature intro).sigs ++ rest =
      .word keyword.word :: (signature ++ .word intro.word :: rest) := by simp [Piece.sigs]
    have scanned : View.scanHeader (oracleLike keywords) whole 0 (signature ++ .word intro.word :: rest) = (rest,true) := by
      rw [signature_header valid (by simp only [Piece.sigs,length_append,length_cons] at fits; omega)]
      simp only [View.scanHeader,header_intro valid keyword intro here.tail,clear]
      rfl
    rw [regroup] at here ⊢
    refine .single ?_
    rw [word_turn here (by cases keyword <;> decide) (by cases keyword <;> rfl) (.inl (by cases keyword <;> rfl)),scanned]
    cases keyword <;> rfl
  | forward keyword signature =>
    cases moved
    have regroup : (Piece.forward keyword signature).sigs ++ rest =
      .word keyword.word :: (signature ++ semi :: rest) := by simp [Piece.sigs]
    have scanned : View.scanHeader (oracleLike keywords) whole 0 (signature ++ semi :: rest) = (rest,false) := by
      rw [signature_header valid (by simp only [Piece.sigs,length_append,length_cons] at fits; omega)]
      rfl
    rw [regroup] at here ⊢
    refine .single ?_
    rw [word_turn here (by cases keyword <;> decide) (by cases keyword <;> rfl) (.inl (by cases keyword <;> rfl)),scanned]
    cases keyword <;> rfl

theorem tokensOf_not_callSpec (valid : ∀ p ∈ pieces, p.Valid (oracleLike keywords))
    (clear : View.isCallSpec (oracleLike keywords) rest = false) :
    View.isCallSpec (oracleLike keywords) (tokensOf pieces ++ rest) = false := by
  cases pieces with
  | nil => exact clear
  | cons p pieces =>
    rw [tokensOf_cons,append_assoc]
    exact Piece.not_callSpec (valid p (mem_cons_self ..))

theorem run_reaches (valid : ∀ p ∈ pieces, p.Valid (oracleLike keywords)) (ran : c.run pieces = some c')
    (clear : View.isCallSpec (oracleLike keywords) rest = false) (here : c.At (tokensOf pieces ++ rest) whole) :
    Leads keywords whole (c.state (tokensOf pieces ++ rest))
      (c'.state rest) := by
  induction pieces generalizing c with
  | nil =>
    cases ran
    exact .refl
  | cons p pieces ih =>
    obtain ⟨next,moved,later⟩ := bind_eq_some_iff.mp ran
    have valid' : ∀ q ∈ pieces, q.Valid (oracleLike keywords) := fun q member => valid q (.tail _ member)
    rw [tokensOf_cons,append_assoc] at here ⊢
    exact (advance_reaches (valid p (mem_cons_self ..)) moved (tokensOf_not_callSpec valid' clear) here).trans
      (ih valid' later (advance_at moved here))

end Reldex
