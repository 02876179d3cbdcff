import Reldex.SplitterScans

/-! What the splitter sees of a document. Trivia is dropped, a word is its text in lower
case, an operator its spelling and whether it is a lone `/` line; of everything else only
the presence counts. The scans are restated over these lists and agree with those of the
model, so two documents that look the same are split alike. -/
namespace Reldex
open Option Nat
open List hiding after

inductive Sig where
  | word (lowered : Text)
  | operator (spelling : Text) (lone : Bool)
  | directive
  | unread
  deriving DecidableEq, Repr

def Token.sig (text : Text) (t : Token) : Option Sig :=
  if isTrivial t.kind then none
  else if isWord t.kind then some (.word (lower (t.text text)))
  else if t.kind == .operator then some (.operator (t.text text) (slashLine text t))
  else if t.kind == .directive then some .directive
  else some .unread

def sigs (text : Text) (tokens : List Token) : List Sig := tokens.filterMap (Token.sig text)

namespace View

def isLone : Sig → Bool
  | .operator _ lone => lone
  | _ => false

def isWord : Sig → Bool
  | .word _ => true
  | _ => false

def isOperator (s : Sig) (spelling : Text) : Bool :=
  match s with
  | .operator t _ => t == spelling
  | _ => false

variable (d : SqlDialect)

def isTerminator : Sig → Bool
  | .operator [c] _ => d.statementTerminators.contains c
  | _ => false

def skipOperator (spelling : Text) : List Sig → Option (List Sig)
  | [] => none
  | s :: rest => if isOperator s spelling then some rest else none

def skipName : List Sig → List Sig
  | [] => []
  | s :: rest => if isWord s then rest else s :: rest

def skipLabel (labels : Text × Text) (view : List Sig) : Option (List Sig) :=
  (skipOperator labels.1 view).bind fun rest => skipOperator labels.2 (skipName rest)

def skipLabelsLoop (labels : Text × Text) : Nat → List Sig → List Sig
  | 0, view => view
  | fuel + 1, view =>
    match skipLabel labels view with
    | none => view
    | some after => skipLabelsLoop labels fuel after

def skipLabels (view : List Sig) : List Sig :=
  match d.labelDelimiters with
  | none => view
  | some labels => skipLabelsLoop labels view.length view

def leadingWords : Nat → List Sig → List (Text × List Sig)
  | 0, _ => []
  | _ + 1, [] => []
  | left + 1, .word w :: rest => (w,rest) :: leadingWords left rest
  | left + 1, .directive :: rest => leadingWords (left + 1) rest
  | _ + 1, .operator _ _ :: _ => []
  | _ + 1, .unread :: _ => []

def peekPhrase : Phrase → List Sig → Bool
  | [], _ => true
  | expected :: phrase, .word w :: rest => eqIgnoreAsciiCase expected w && peekPhrase phrase rest
  | _ :: _, _ => false

def endsWithPhrase (whole after : List Sig) (phrase : Phrase) : Bool :=
  peekPhrase phrase.reverse (consumed whole after).reverse

def isBodyIntro (whole : List Sig) (word : Text) (after : List Sig) : Bool :=
  wordIn d.bodyIntroKeywords word && !d.bodyIntroExceptions.any (endsWithPhrase whole after)

def isCallSpec (after : List Sig) : Bool := d.callSpecPhrases.any (peekPhrase · after)

def followingSlash : List Sig → Option (List Sig)
  | .directive :: rest => followingSlash rest
  | .operator _ true :: rest => some rest
  | _ => none

/-- How a scan ends: the view from the token that closed it, what follows, and whether
the content is trimmed back from that token. Nothing closes a scan that runs to the end. -/
structure Ending where
  closer : List Sig
  next : List Sig
  trimmed : Bool
  terminated : Bool
  endedBy : EndedBy
  kind : StatementKind
  deriving DecidableEq, Repr

def ranToEof (kind : StatementKind) : Ending := ⟨[],[],false,false,.endOfInput,kind⟩

def endAtSlashLine (closer next : List Sig) (kind : StatementKind) : Ending :=
  ⟨closer,next,true,true,.slashLine,kind⟩

def finishWithMaybeSlash (closer next : List Sig) (kind : StatementKind) : Ending :=
  match (if d.slashTerminatesBlock then followingSlash next else none) with
  | some rest => ⟨closer,rest,false,true,.slashLine,kind⟩
  | none => ⟨closer,next,false,d.blockMayEndWithoutSlash,.inferredBlockEnd,kind⟩

def scanPlain : List Sig → Ending
  | [] => ranToEof .plain
  | s :: rest =>
    if d.slashTerminatesPlain && isLone s then endAtSlashLine (s :: rest) rest .plain
    else if isTerminator d s then ⟨s :: rest,rest,false,true,.terminator,.plain⟩
    else scanPlain rest

def scanOpaqueSource : List Sig → Ending
  | [] => ranToEof .block
  | s :: rest => if isLone s then endAtSlashLine (s :: rest) rest .block else scanOpaqueSource rest

def parenChange (s : Sig) : Int32 := if isOperator s ['('] then 1 else if isOperator s [')'] then -1 else 0

def scanParenDelimited : Int32 → List Sig → Ending
  | _, [] => ranToEof .block
  | parenDepth, s :: rest =>
    if d.slashTerminatesBlock && isLone s then endAtSlashLine (s :: rest) rest .block
    else if parenChange s ≠ 0 then scanParenDelimited (parenDepth + parenChange s) rest
    else if parenDepth ≤ 0 && isTerminator d s then finishWithMaybeSlash d (s :: rest) rest .block
    else scanParenDelimited parenDepth rest

def skipToTerminator : List Sig → List Sig
  | [] => []
  | s :: rest => if isTerminator d s then rest else skipToTerminator rest

def scanHeader (whole : List Sig) : Int32 → List Sig → List Sig × Bool
  | _, [] => ([],false)
  | parenDepth, .word w :: rest =>
    if parenDepth ≤ 0 && isBodyIntro d whole w rest then
      if isCallSpec d rest then (skipToTerminator d rest,false) else (rest,true)
    else scanHeader whole parenDepth rest
  | parenDepth, s :: rest =>
    if parenChange s ≠ 0 then scanHeader whole (parenDepth + parenChange s) rest
    else if parenDepth ≤ 0 && isTerminator d s then (rest,false)
    else scanHeader whole parenDepth rest

def scanToTerminator : List Sig → Ending
  | [] => ranToEof .block
  | s :: rest =>
    if d.slashTerminatesBlock && isLone s then endAtSlashLine (s :: rest) rest .block
    else if isTerminator d s then finishWithMaybeSlash d (s :: rest) rest .block
    else scanToTerminator rest

def skipWords : List Sig → List Sig
  | [] => []
  | s :: rest => if isWord s then skipWords rest else s :: rest

def skipEndQualifier (view : List Sig) : List Sig :=
  match skipWords view with
  | [] => []
  | s :: rest => if isTerminator d s then rest else s :: rest

def finishStructured (after : List Sig) : Ending :=
  match skipWords after with
  | [] => ranToEof .block
  | s :: rest => if isTerminator d s then finishWithMaybeSlash d (s :: rest) rest .block else ranToEof .block

structure State where
  rest : List Sig
  depth : Int32
  pendingBodies : UInt32
  absorbedBody : Bool
  isCompound : Bool
  parenDepth : Int32
  deriving DecidableEq, Repr

def State.awaitsBody (s : State) : Bool := s.depth == 0 && s.pendingBodies == 0 && !s.absorbedBody

def openBody (s : State) : State :=
  if 0 < s.pendingBodies && s.depth == 0 then
    { s with pendingBodies := s.pendingBodies - 1, depth := s.depth + 1 }
  else if s.depth == 0 && !s.absorbedBody then { s with absorbedBody := true }
  else { s with depth := s.depth + 1 }

def structuredWord (whole : List Sig) (s : State) (w : Text) (rest : List Sig) : Turn State Ending :=
  let s := { s with isCompound := s.isCompound ||
    d.sectionedBodyMarker.any (peekPhrase · (.word w :: rest)) }
  if s.awaitsBody && wordIn d.bodyLessMarkers w then .done (scanToTerminator d rest)
  else if s.awaitsBody && isBodyIntro d whole w rest && isCallSpec d rest then
    .done (scanToTerminator d rest)
  else if isHeaderWord d s.isCompound w then
    let header := scanHeader d whole 0 rest
    .next { s with rest := header.1, pendingBodies := s.pendingBodies + if header.2 then 1 else 0 }
  else if eqIgnoreAsciiCase w d.blockEndKeyword then
    if s.depth == 0 then .done (finishStructured d rest)
    else .next { s with depth := s.depth - 1, rest := skipEndQualifier d rest }
  else if eqIgnoreAsciiCase w d.blockBodyOpener then .next { openBody s with rest := rest }
  else if wordIn d.blockNestingOpeners w then .next { s with depth := s.depth + 1, rest := rest }
  else .next { s with rest := rest }

def structuredTurn (whole : List Sig) (s : State) : Turn State Ending :=
  match s.rest with
  | [] => .done (ranToEof .block)
  | .word w :: rest =>
    if 0 < s.parenDepth then .next { s with rest := rest } else structuredWord d whole s w rest
  | sig :: rest =>
    if d.slashTerminatesBlock && isLone sig then .done (endAtSlashLine (sig :: rest) rest .block)
    else .next { s with parenDepth := s.parenDepth + parenChange sig, rest := rest }

def structuredStart (starter : BlockStarter) (rest : List Sig) : State :=
  ⟨rest,0,0,starter.opensBody,false,0⟩

def scanStructured (whole : List Sig) (starter : BlockStarter) (rest : List Sig) : Ending :=
  (Turn.run (structuredTurn d whole) (rest.length + 1) (structuredStart starter rest)).getD (ranToEof .block)

def matchedStarter (start : List Sig) : Option (BlockStarter × List Sig) :=
  let labelSkipped := skipLabels d start
  let words := leadingWords maxLeadingWords labelSkipped
  d.blockStarters.findSome? fun starter =>
    (matchesBlockStarter starter words labelSkipped).map (starter,·)

def scanStatement (whole start : List Sig) : Ending :=
  match matchedStarter d start with
  | some (starter,resume) =>
    match starter.kind with
    | .structured => scanStructured d whole starter resume
    | .opaqueSource => scanOpaqueSource resume
    | .parenDelimited => scanParenDelimited d 0 resume
  | none => scanPlain d start

inductive Splits (whole : List Sig) : List Sig → List (List Sig × Ending) → Prop where
  | stop : Splits whole [] []
  | idle : ((d.slashTerminatesBlock || d.slashTerminatesPlain) && isLone first) = true →
      Splits whole rest statements → Splits whole (first :: rest) statements
  | statement : ((d.slashTerminatesBlock || d.slashTerminatesPlain) && isLone first) = false →
      scanStatement d whole (first :: rest) = ending → Splits whole ending.next statements →
      Splits whole (first :: rest) ((first :: rest,ending) :: statements)

end View

section
variable {d : SqlDialect} {text : Text} {t : Token} {cur rest tokens : List Token} {contentStart : Nat}

theorem Token.sig_cases (text : Text) (t : Token) : (isTrivial t.kind = true ∧ t.sig text = none) ∨
      (isTrivial t.kind = false ∧ isWord t.kind = true ∧ t.sig text = some (.word (lower (t.text text)))) ∨
      (t.kind = .operator ∧ t.sig text = some (.operator (t.text text) (slashLine text t))) ∨
      (t.kind = .directive ∧ t.sig text = some .directive) ∨
      (isTrivial t.kind = false ∧ isWord t.kind = false ∧ t.kind ≠ .operator ∧ t.kind ≠ .directive ∧
        t.sig text = some .unread) := by
  cases kind : t.kind <;> simp [Token.sig,kind,isTrivial,isWord]

theorem sig_of_visible (text : Text) (visible : isTrivial t.kind = false) : ∃ s, t.sig text = some s := by
  rcases t.sig_cases text with ⟨trivial,_⟩ | ⟨_,_,same⟩ | ⟨_,same⟩ | ⟨_,same⟩ | ⟨_,_,_,_,same⟩
  · rw [visible] at trivial; cases trivial
  all_goals exact ⟨_,same⟩

theorem sig_none_iff : t.sig text = none ↔ isTrivial t.kind = true := by
  cases kind : t.kind <;> simp [Token.sig,kind,isTrivial,isWord]

theorem slashLine_sig (text : Text) (t : Token) : slashLine text t = (t.sig text).any View.isLone := by
  cases kind : t.kind <;> simp [Token.sig,kind,isTrivial,isWord,View.isLone,slashLine]

theorem isWord_sig (text : Text) (t : Token) : isWord t.kind = (t.sig text).any View.isWord := by
  cases kind : t.kind <;> simp [Token.sig,kind,isTrivial,isWord,View.isWord]

theorem isOperator_sig (text : Text) (t : Token) (spelling : Text) :
    isOperator text t spelling = (t.sig text).any (View.isOperator · spelling) := by
  cases kind : t.kind <;> simp [Token.sig,kind,isTrivial,isWord,View.isOperator,isOperator]

theorem isTerminator_sig (d : SqlDialect) (text : Text) (t : Token) :
    isTerminator d text t = (t.sig text).any (View.isTerminator d) := by
  cases kind : t.kind <;> simp [Token.sig,kind,isTrivial,isWord,View.isTerminator,isTerminator]
  split <;> simp_all

theorem parenChange_sig (text : Text) (t : Token) :
    parenChange text t = ((t.sig text).map View.parenChange).getD 0 := by
  simp only [parenChange,isOperator_sig]
  cases t.sig text <;> simp [View.parenChange]

@[simp] theorem sigs_nil : sigs text [] = [] := rfl

theorem sigs_cons_none (hidden : t.sig text = none) : sigs text (t :: rest) = sigs text rest := by
  simp [sigs,hidden]

theorem sigs_cons_some (rest : List Token) (shown : t.sig text = some s) : sigs text (t :: rest) = s :: sigs text rest := by
  simp [sigs,shown]

theorem sigs_append (a b : List Token) : sigs text (a ++ b) = sigs text a ++ sigs text b := by
  simp [sigs]

theorem sigs_reverse (a : List Token) : sigs text a.reverse = (sigs text a).reverse := by
  simp [sigs]

theorem sigs_blank (blank : ∀ t ∈ cur, isTrivial t.kind = true) : sigs text cur = [] := by
  rw [sigs,filterMap_eq_nil_iff]
  exact fun t member => sig_none_iff.mpr (blank t member)

@[simp] theorem sigs_skipTrivial (cur : List Token) : sigs text (skipTrivial cur) = sigs text cur := by
  obtain ⟨blank,whole,trivial⟩ := skipTrivial_split cur
  conv_rhs => rw [whole,sigs_append,sigs_blank trivial]
  rfl

theorem sigs_consumed (tail : rest <:+ tokens) :
    sigs text (consumed tokens rest) = consumed (sigs text tokens) (sigs text rest) := by
  obtain ⟨front,rfl⟩ := tail
  rw [consumed_front,sigs_append,consumed_front]

theorem skipTrivial_cons (text : Text) (cur : List Token) : (skipTrivial cur = [] ∧ sigs text cur = []) ∨
      ∃ t rest s, skipTrivial cur = t :: rest ∧ t.sig text = some s ∧ sigs text cur = s :: sigs text rest := by
  cases found : skipTrivial cur with
  | nil => exact .inl ⟨rfl,by rw [← sigs_skipTrivial,found]; rfl⟩
  | cons t rest =>
    obtain ⟨s,shown⟩ := sig_of_visible text (skipTrivial_visible found)
    exact .inr ⟨t,rest,s,rfl,shown,by rw [← sigs_skipTrivial,found,sigs_cons_some _ shown]⟩

theorem skipOperator_sig (text spelling : Text) (cur : List Token) :
    (skipOperator text spelling (skipTrivial cur)).map (sigs text) = View.skipOperator spelling (sigs text cur) := by
  rcases skipTrivial_cons text cur with ⟨none,empty⟩ | ⟨t,rest,s,found,shown,view⟩
  · simp [none,empty,skipOperator,View.skipOperator]
  · simp only [found,view,skipOperator,View.skipOperator,isOperator_sig,shown,any_some]
    split <;> rfl

theorem skipName_sig (text : Text) (cur : List Token) :
    ∃ after, skipName cur = skipTrivial after ∧ sigs text after = View.skipName (sigs text cur) := by
  rcases skipTrivial_cons text cur with ⟨none,empty⟩ | ⟨t,rest,s,found,shown,view⟩
  · exact ⟨[],by simp only [skipName,none]; rfl,by simp [empty,View.skipName]⟩
  · simp only [skipName,found,view,View.skipName,isWord_sig text,shown,any_some]
    split
    · exact ⟨rest,rfl,rfl⟩
    · exact ⟨cur,found.symm,view⟩

theorem skipLabel_sig (text : Text) (labels : Text × Text) (cur : List Token) :
    (skipLabel text labels cur).map (sigs text) = View.skipLabel labels (sigs text cur) := by
  have first := skipOperator_sig text labels.1 cur
  rw [skipLabel,View.skipLabel,← first]
  cases skipOperator text labels.1 (skipTrivial cur) with
  | none => rfl
  | some rest =>
    obtain ⟨after,same,view⟩ := skipName_sig text rest
    simp only [bind_some,map_some,same,skipOperator_sig,view]

theorem View.skipLabel_suffix (found : skipLabel labels view = some after) :
    ∃ first rest, view = first :: rest ∧ after <:+ rest := by
  have operator {spelling : Text} {view after : List Sig} (found : skipOperator spelling view = some after) :
      ∃ first, view = first :: after := by
    cases view with
    | nil => cases found
    | cons s rest =>
      simp only [skipOperator,ite_none_right_eq_some] at found
      cases found.2
      exact ⟨s,rfl⟩
  have name (view : List Sig) : skipName view <:+ view := by
    cases view with
    | nil => exact suffix_rfl
    | cons s rest =>
      simp only [skipName]
      split
      · exact suffix_cons ..
      · exact suffix_rfl
  obtain ⟨rest,opens,closes⟩ := bind_eq_some_iff.mp found
  obtain ⟨first,rfl⟩ := operator opens
  obtain ⟨last,same⟩ := operator closes
  exact ⟨first,rest,rfl,(suffix_cons ..).trans (same ▸ name rest)⟩

theorem skipLabelsLoop_enough (labels : Text × Text) (view : List Sig) (enough : view.length ≤ fuel) :
    View.skipLabelsLoop labels fuel view = View.skipLabelsLoop labels view.length view := by
  have same (n : Nat) : ∀ (view : List Sig) (m : Nat), view.length ≤ n → view.length ≤ m →
      View.skipLabelsLoop labels n view = View.skipLabelsLoop labels m view := by
    induction n with
    | zero =>
      intro view m small _
      cases length_eq_zero_iff.mp (le_zero.mp small)
      cases m <;> rfl
    | succ n ih =>
      intro view m small enough
      cases found : View.skipLabel labels view with
      | none => cases m <;> simp [View.skipLabelsLoop,found]
      | some after =>
        have shorter : after.length < view.length := by
          obtain ⟨first,rest,rfl,tail⟩ := View.skipLabel_suffix found
          exact lt_succ_of_le tail.length_le
        obtain ⟨m,rfl⟩ : ∃ k, m = k + 1 := ⟨m - 1,by omega⟩
        simp only [View.skipLabelsLoop,found]
        exact ih after m (by omega) (by omega)
  exact same fuel view view.length enough (le_refl _)

theorem skipLabels_sig (cur : List Token) : sigs text (skipLabels d text cur) = View.skipLabels d (sigs text cur) := by
  have loop (labels : Text × Text) (fuel : Nat) (cur : List Token) :
      sigs text (skipLabelsLoop text labels fuel cur) = View.skipLabelsLoop labels fuel (sigs text cur) := by
    induction fuel generalizing cur with
    | zero => rfl
    | succ fuel ih =>
      have first := skipLabel_sig text labels cur
      simp only [skipLabelsLoop,View.skipLabelsLoop,← first]
      cases skipLabel text labels cur with
      | none => rfl
      | some after => exact ih after
  unfold skipLabels View.skipLabels
  cases d.labelDelimiters with
  | none => rfl
  | some labels =>
    rw [loop]
    exact skipLabelsLoop_enough _ _ (length_filterMap_le _ _)

theorem collectLeadingWords_sig (left : Nat) (cur : List Token) :
    (collectLeadingWords text left cur).map (fun word => (lower word.1,sigs text word.2)) =
      View.leadingWords left (sigs text cur) := by
  fun_induction collectLeadingWords text left cur with
  | case1 cur => simp [View.leadingWords]
  | case2 left => simp [View.leadingWords]
  | case3 left token rest word ih =>
    rcases token.sig_cases text with ⟨trivial,_⟩ | ⟨_,_,shown⟩ | ⟨kind,_⟩ | ⟨kind,_⟩ | ⟨_,noWord,_⟩
    · cases kind : token.kind <;> simp [kind,isWord,isTrivial] at word trivial
    · rw [sigs_cons_some _ shown]
      simp [View.leadingWords,ih]
    · simp [kind,isWord] at word
    · simp [kind,isWord] at word
    · rw [word] at noWord; cases noWord
  | case4 left token rest noWord skipped ih =>
    rcases token.sig_cases text with ⟨_,hidden⟩ | ⟨_,word,_⟩ | ⟨kind,_⟩ | ⟨kind,shown⟩ | ⟨visible,_,_,other,_⟩
    · rw [sigs_cons_none hidden,ih]
    · exact absurd word noWord
    · simp [kind,isTrivialOrDirective,isTrivial] at skipped
    · rw [sigs_cons_some _ shown]
      simp [View.leadingWords,ih]
    · simp [isTrivialOrDirective,visible,other] at skipped
  | case5 left token rest noWord stop =>
    simp only [isTrivialOrDirective,Bool.or_eq_true,beq_iff_eq,not_or] at stop
    rcases token.sig_cases text with ⟨trivial,_⟩ | ⟨_,word,_⟩ | ⟨_,shown⟩ | ⟨kind,_⟩ | ⟨_,_,_,_,shown⟩
    · exact absurd trivial stop.1
    · exact absurd word noWord
    · rw [sigs_cons_some _ shown]; rfl
    · exact absurd kind stop.2
    · rw [sigs_cons_some _ shown]; rfl

variable (f : α → β) (phrase : Phrase)

theorem phraseMatches_map (words : List (Text × α)) :
    phraseMatches phrase (words.map fun word => (lower word.1,f word.2)) = phraseMatches phrase words := by
  simp only [phraseMatches,length_map]
  congr 1
  induction phrase generalizing words with
  | nil => simp
  | cons expected phrase ih =>
    cases words with
    | nil => simp
    | cons word words => simp [ih]

theorem matchSlots_map (slots : List KeywordSlot) (words : List (Text × α)) (taken : Nat) :
    matchSlots slots (words.map fun word => (lower word.1,f word.2)) taken = matchSlots slots words taken := by
  have same (options : List Phrase) (taken : Nat) :
      matchPhrase options ((words.map fun word => (lower word.1,f word.2)).drop taken) =
        matchPhrase options (words.drop taken) := by
    simp only [matchPhrase,← map_drop,phraseMatches_map]
  induction slots generalizing taken with
  | nil => rfl
  | cons slot slots ih =>
    cases slot <;> simp only [matchSlots,same,ih]

theorem matchesBlockStarter_map (starter : BlockStarter) (words : List (Text × α)) (start : α) :
    matchesBlockStarter starter (words.map fun word => (lower word.1,f word.2)) (f start) =
      (matchesBlockStarter starter words start).map f := by
  simp only [matchesBlockStarter,matchSlots_map,Option.map_map]
  congr 1
  funext taken
  cases taken with
  | zero => rfl
  | succ last => cases found : words[last]? <;> simp [found]

theorem matchedStarter_sig (cur : List Token) :
    (matchedStarter d text cur).map (fun found => (found.1,sigs text found.2)) =
      View.matchedStarter d (sigs text cur) := by
  simp only [matchedStarter,View.matchedStarter,← skipLabels_sig,← collectLeadingWords_sig,matchesBlockStarter_map]
  induction d.blockStarters with
  | nil => rfl
  | cons starter starters ih =>
    simp only [List.findSome?_cons]
    cases matchesBlockStarter starter (collectLeadingWords text maxLeadingWords (skipLabels d text cur))
      (skipLabels d text cur) with
    | none => exact ih
    | some found => rfl

@[simp] theorem wordIn_lower (words : List Text) (word : Text) : wordIn words (lower word) = wordIn words word := by
  simp [wordIn]

theorem peekPhraseMatches_sig (cur : List Token) :
    peekPhraseMatches text phrase (skipTrivial cur) = View.peekPhrase phrase (sigs text cur) := by
  induction phrase generalizing cur with
  | nil => simp [peekPhraseMatches,View.peekPhrase]
  | cons expected phrase ih =>
    rcases skipTrivial_cons text cur with ⟨none,empty⟩ | ⟨t,rest,s,found,shown,view⟩
    · simp [none,empty,peekPhraseMatches,View.peekPhrase]
    · rw [found,view]
      rcases t.sig_cases text with ⟨_,hidden⟩ | ⟨_,word,same⟩ | ⟨kind,same⟩ | ⟨kind,same⟩ | ⟨_,noWord,_,_,same⟩
      · rw [hidden] at shown; cases shown
      all_goals
        rw [same] at shown
        cases shown
      · simp [peekPhraseMatches,View.peekPhrase,word,ih]
      · simp [peekPhraseMatches,View.peekPhrase,kind,isWord]
      · simp [peekPhraseMatches,View.peekPhrase,kind,isWord]
      · simp [peekPhraseMatches,View.peekPhrase,noWord]

theorem endsWithReversed_sig (behind : List Token) :
    endsWithReversed text phrase behind = View.peekPhrase phrase (sigs text behind) := by
  rw [← peekPhraseMatches_sig]
  induction phrase generalizing behind with
  | nil => simp [peekPhraseMatches,endsWithReversed]
  | cons expected phrase ih =>
    simp only [endsWithReversed]
    cases skipTrivial behind with
    | nil => rfl
    | cons t rest => simp only [peekPhraseMatches,ih]

theorem isBodyIntro_sig (word : Text) (tail : rest <:+ tokens) :
    isBodyIntro d text tokens word rest = View.isBodyIntro d (sigs text tokens) (lower word) (sigs text rest) := by
  have phrases : endsWithPhrase text tokens rest = View.endsWithPhrase (sigs text tokens) (sigs text rest) := by
    funext phrase
    rw [endsWithPhrase,View.endsWithPhrase,behind,endsWithReversed_sig,sigs_reverse,sigs_consumed tail]
  rw [isBodyIntro,View.isBodyIntro,wordIn_lower,phrases]

theorem isCallSpec_sig (after : List Token) : isCallSpec d text after = View.isCallSpec d (sigs text after) := by
  simp only [isCallSpec,View.isCallSpec,peekPhraseMatches_sig]

theorem skipToTerminator_sig (cur : List Token) :
    sigs text (skipToTerminator d text cur) = View.skipToTerminator d (sigs text cur) := by
  induction cur with
  | nil => rfl
  | cons t rest ih =>
    simp only [skipToTerminator,isTerminator_sig]
    cases shown : t.sig text with
    | none => simpa [sigs_cons_none shown] using ih
    | some s =>
      simp only [sigs_cons_some _ shown,View.skipToTerminator,any_some]
      split
      · rfl
      · exact ih

theorem skipWords_sig (cur : List Token) : sigs text (skipWords cur) = View.skipWords (sigs text cur) := by
  induction cur with
  | nil => rfl
  | cons t rest ih =>
    simp only [skipWords,isWord_sig text]
    cases shown : t.sig text with
    | none => simpa [sigs_cons_none shown,sig_none_iff.mp shown] using ih
    | some s =>
      have visible : isTrivial t.kind = false := by
        rw [Bool.eq_false_iff]
        exact fun trivial => by rw [sig_none_iff.mpr trivial] at shown; cases shown
      simp only [sigs_cons_some _ shown,View.skipWords,any_some,visible,Bool.false_or]
      split
      · exact ih
      · rw [sigs_cons_some _ shown]

theorem skipWords_visible (found : skipWords cur = t :: rest) : isTrivial t.kind = false := by
  induction cur with
  | nil => cases found
  | cons first more ih =>
    simp only [skipWords] at found
    split at found
    · exact ih found
    · rename_i stop
      cases found
      simp only [Bool.or_eq_true,not_or,Bool.not_eq_true] at stop
      exact stop.1

theorem skipEndQualifier_eq (cur : List Token) : skipEndQualifier d text cur = match skipWords cur with
      | [] => []
      | t :: rest => if isTerminator d text t then rest else t :: rest := by
  induction cur with
  | nil => rfl
  | cons t rest ih =>
    simp only [skipEndQualifier,skipWords]
    by_cases trivial : isTrivial t.kind = true
    · simp only [trivial,↓reduceIte,ih,Bool.true_or]
    · simp only [trivial,Bool.false_eq_true,↓reduceIte,Bool.false_or]
      by_cases word : isWord t.kind = true
      · have noSemi : isTerminator d text t = false := by
          rw [Bool.eq_false_iff]
          intro semi
          simp only [isTerminator,Bool.and_eq_true,beq_iff_eq] at semi
          exact word_not_operator word semi.1
        simp only [noSemi,word,Bool.false_eq_true,↓reduceIte,ih]
      · simp only [word,Bool.false_eq_true,↓reduceIte]

theorem skipEndQualifier_sig (cur : List Token) :
    sigs text (skipEndQualifier d text cur) = View.skipEndQualifier d (sigs text cur) := by
  rw [skipEndQualifier_eq,View.skipEndQualifier,← skipWords_sig]
  cases found : skipWords cur with
  | nil => rfl
  | cons t rest =>
    obtain ⟨s,shown⟩ := sig_of_visible text (skipWords_visible found)
    simp only [isTerminator_sig,shown,sigs_cons_some _ shown,any_some]
    split
    · rfl
    · rw [sigs_cons_some _ shown]

theorem scanHeader_sig (parenDepth : Int32) (cur : List Token) (tail : cur <:+ tokens) :
    sigs text (scanHeader d text tokens parenDepth cur).1 =
        (View.scanHeader d (sigs text tokens) parenDepth (sigs text cur)).1 ∧
      (scanHeader d text tokens parenDepth cur).2 =
        (View.scanHeader d (sigs text tokens) parenDepth (sigs text cur)).2 := by
  induction cur generalizing parenDepth with
  | nil => simp [scanHeader,View.scanHeader]
  | cons t rest ih =>
    have inner : rest <:+ tokens := (suffix_cons t rest).trans tail
    have ih := fun parenDepth => ih parenDepth inner
    rcases t.sig_cases text with
      ⟨trivial,hidden⟩ | ⟨visible,word,shown⟩ | ⟨kind,shown⟩ | ⟨kind,shown⟩ | ⟨_,noWord,noOperator,_,shown⟩
    · have noWord : isWord t.kind = false := by
        cases kind : t.kind <;> simp [kind,isWord,isTrivial] at trivial ⊢
      have noOperator : (t.kind == .operator) = false := by simpa using trivial_not_operator trivial
      simpa [scanHeader,noWord,noOperator,sigs_cons_none hidden] using ih parenDepth
    · have noOperator : (t.kind == .operator) = false := by simpa using word_not_operator word
      simp only [scanHeader,noOperator,word,sigs_cons_some _ shown,View.scanHeader,← isBodyIntro_sig _ inner,
        ← isCallSpec_sig,Bool.and_true,Bool.false_eq_true,↓reduceIte]
      split
      · split
        · exact ⟨by rw [skipToTerminator_sig,sigs_skipTrivial],rfl⟩
        · exact ⟨rfl,rfl⟩
      · exact ih parenDepth
    · simp only [scanHeader,kind,beq_self_eq_true,↓reduceIte,sigs_cons_some _ shown,View.scanHeader,
        parenChange_sig,isTerminator_sig,shown,map_some,getD_some,any_some]
      split
      · exact ih _
      · split
        · exact ⟨rfl,rfl⟩
        · exact ih parenDepth
    · simpa [scanHeader,kind,isWord,sigs_cons_some _ shown,View.scanHeader,View.parenChange,View.isOperator,
        View.isTerminator] using ih parenDepth
    · simpa [scanHeader,noWord,noOperator,sigs_cons_some _ shown,View.scanHeader,View.parenChange,View.isOperator,
        View.isTerminator] using ih parenDepth

/-- A scan of `cur` ended the way its view did. The closing token is visible, and it or
the text before it gives the end of the content. -/
structure Agrees (text : Text) (tokens : List Token) (contentStart : Nat) (cur : List Token)
    (o : ScanOutcome) (e : View.Ending) : Prop where
  next : sigs text o.next = e.next
  terminated : o.terminated = e.terminated
  endedBy : o.endedBy = e.endedBy
  kind : o.kind = e.kind
  close : (o = ranToEof tokens text o.kind ∧ e.closer = [] ∧ e.trimmed = false) ∨
    ∃ body t rest, cur = body ++ t :: rest ∧ isTrivial t.kind = false ∧ sigs text (t :: rest) = e.closer ∧
      o.contentEnd = if e.trimmed then max (len (trimEnd (sliceTo text t.start))) contentStart else t.start

theorem Agrees.prepend (taken : List Token) (agrees : Agrees text tokens contentStart cur o e) :
    Agrees text tokens contentStart (taken ++ cur) o e := by
  refine ⟨agrees.next,agrees.terminated,agrees.endedBy,agrees.kind,?_⟩
  rcases agrees.close with eof | ⟨body,t,rest,whole,found⟩
  · exact .inl eof
  · exact .inr ⟨taken ++ body,t,rest,by rw [whole,append_assoc],found⟩

variable (kind : StatementKind)

theorem ranToEof_agrees : Agrees text tokens contentStart cur (ranToEof tokens text kind) (View.ranToEof kind) :=
  ⟨rfl,rfl,rfl,rfl,.inl ⟨rfl,rfl,rfl⟩⟩

theorem endAtSlashLine_agrees (visible : isTrivial t.kind = false) :
    Agrees text tokens contentStart (t :: rest) (endAtSlashLine text t kind rest contentStart)
      (View.endAtSlashLine (sigs text (t :: rest)) (sigs text rest) kind) :=
  ⟨rfl,rfl,rfl,rfl,.inr ⟨[],t,rest,rfl,visible,rfl,rfl⟩⟩

theorem followingSlash_sig (cur : List Token) :
    (followingSlash text cur).map (fun found => sigs text found.2) = View.followingSlash (sigs text cur) := by
  induction cur with
  | nil => rfl
  | cons t rest ih =>
    simp only [followingSlash]
    rcases t.sig_cases text with
      ⟨trivial,hidden⟩ | ⟨visible,word,shown⟩ | ⟨kind,shown⟩ | ⟨kind,shown⟩ | ⟨visible,_,_,other,shown⟩
    · simpa [isTrivialOrDirective,trivial,sigs_cons_none hidden] using ih
    · have other : (t.kind == .directive) = false := by
        cases kind : t.kind <;> simp [kind,isWord] at word ⊢
      simp [isTrivialOrDirective,visible,other,slashLine_sig,shown,View.isLone,sigs_cons_some _ shown,
        View.followingSlash]
    · rw [sigs_cons_some _ shown]
      cases slashLine text t <;> simp [isTrivialOrDirective,isTrivial,kind,View.followingSlash]
    · simpa [isTrivialOrDirective,kind,sigs_cons_some _ shown,View.followingSlash] using ih
    · simp [isTrivialOrDirective,visible,other,slashLine_sig,shown,View.isLone,sigs_cons_some _ shown,
        View.followingSlash]

theorem finishWithMaybeSlash_agrees (visible : isTrivial t.kind = false) :
    Agrees text tokens contentStart (t :: rest) (finishWithMaybeSlash d text t.start t.stop rest kind)
      (View.finishWithMaybeSlash d (sigs text (t :: rest)) (sigs text rest) kind) := by
  have close (o : ScanOutcome) (e : View.Ending) (start : o.contentEnd = t.start)
      (view : e.closer = sigs text (t :: rest)) (exact : e.trimmed = false) :
      (o = ranToEof tokens text o.kind ∧ e.closer = [] ∧ e.trimmed = false) ∨
        ∃ body t' rest', t :: rest = body ++ t' :: rest' ∧ isTrivial t'.kind = false ∧
          sigs text (t' :: rest') = e.closer ∧ o.contentEnd =
            if e.trimmed then max (len (trimEnd (sliceTo text t'.start))) contentStart else t'.start :=
    .inr ⟨[],t,rest,rfl,visible,view.symm,by rw [exact]; exact start⟩
  unfold finishWithMaybeSlash View.finishWithMaybeSlash
  rw [← followingSlash_sig]
  cases d.slashTerminatesBlock with
  | false => exact ⟨rfl,rfl,rfl,rfl,close _ _ rfl rfl rfl⟩
  | true =>
    simp only [↓reduceIte]
    cases followingSlash text rest with
    | none => exact ⟨rfl,rfl,rfl,rfl,close _ _ rfl rfl rfl⟩
    | some found => exact ⟨rfl,rfl,rfl,rfl,close _ _ rfl rfl rfl⟩

theorem visible_of_sig (shown : t.sig text = some s) : isTrivial t.kind = false := by
  rw [Bool.eq_false_iff]
  intro trivial
  rw [sig_none_iff.mpr trivial] at shown
  cases shown

variable (d text tokens contentStart)

theorem scanPlain_agrees (cur : List Token) :
    Agrees text tokens contentStart cur (scanPlain d text tokens contentStart cur)
      (View.scanPlain d (sigs text cur)) := by
  induction cur with
  | nil => exact ranToEof_agrees _
  | cons t rest ih =>
    simp only [scanPlain,slashLine_sig,isTerminator_sig]
    cases shown : t.sig text with
    | none => simpa [sigs_cons_none shown] using ih.prepend [t]
    | some s =>
      have view := sigs_cons_some rest shown
      have visible := visible_of_sig shown
      simp only [view,View.scanPlain,any_some]
      split
      · exact view ▸ endAtSlashLine_agrees _ visible
      · split
        · exact ⟨rfl,rfl,rfl,rfl,.inr ⟨[],t,rest,rfl,visible,view,rfl⟩⟩
        · exact ih.prepend [t]

theorem scanOpaqueSource_agrees (cur : List Token) :
    Agrees text tokens contentStart cur (scanOpaqueSource text tokens contentStart cur)
      (View.scanOpaqueSource (sigs text cur)) := by
  induction cur with
  | nil => exact ranToEof_agrees _
  | cons t rest ih =>
    simp only [scanOpaqueSource,slashLine_sig]
    cases shown : t.sig text with
    | none => simpa [sigs_cons_none shown] using ih.prepend [t]
    | some s =>
      have view := sigs_cons_some rest shown
      simp only [view,View.scanOpaqueSource,any_some]
      split
      · exact view ▸ endAtSlashLine_agrees _ (visible_of_sig shown)
      · exact ih.prepend [t]

theorem scanParenDelimited_agrees (parenDepth : Int32) (cur : List Token) :
    Agrees text tokens contentStart cur (scanParenDelimited d text tokens contentStart parenDepth cur)
      (View.scanParenDelimited d parenDepth (sigs text cur)) := by
  induction cur generalizing parenDepth with
  | nil => exact ranToEof_agrees _
  | cons t rest ih =>
    simp only [scanParenDelimited,slashLine_sig,isTerminator_sig,parenChange_sig]
    cases shown : t.sig text with
    | none => simpa [sigs_cons_none shown] using (ih parenDepth).prepend [t]
    | some s =>
      have view := sigs_cons_some rest shown
      have visible := visible_of_sig shown
      simp only [view,View.scanParenDelimited,any_some,map_some,getD_some]
      split
      · exact view ▸ endAtSlashLine_agrees _ visible
      · split
        · exact (ih _).prepend [t]
        · split
          · exact view ▸ finishWithMaybeSlash_agrees _ visible
          · exact (ih _).prepend [t]

theorem scanToTerminator_agrees (cur : List Token) :
    Agrees text tokens contentStart cur (scanToTerminator d text tokens contentStart cur)
      (View.scanToTerminator d (sigs text cur)) := by
  induction cur with
  | nil => exact ranToEof_agrees _
  | cons t rest ih =>
    simp only [scanToTerminator,slashLine_sig,isTerminator_sig]
    cases shown : t.sig text with
    | none => simpa [sigs_cons_none shown] using ih.prepend [t]
    | some s =>
      have view := sigs_cons_some rest shown
      have visible := visible_of_sig shown
      simp only [view,View.scanToTerminator,any_some]
      split
      · exact view ▸ endAtSlashLine_agrees _ visible
      · split
        · exact view ▸ finishWithMaybeSlash_agrees _ visible
        · exact ih.prepend [t]

theorem finishStructured_agrees (cur : List Token) :
    Agrees text tokens contentStart cur (finishStructured d text tokens cur)
      (View.finishStructured d (sigs text cur)) := by
  obtain ⟨front,whole⟩ := skipWords_suffix cur
  rw [finishStructured,View.finishStructured,← skipWords_sig]
  cases found : skipWords cur with
  | nil => exact ranToEof_agrees _
  | cons t rest =>
    have visible := skipWords_visible found
    obtain ⟨s,shown⟩ := sig_of_visible text visible
    have view := sigs_cons_some rest shown
    simp only [isTerminator_sig,shown,view,any_some]
    split
    · rw [← whole,found]
      exact (view ▸ finishWithMaybeSlash_agrees _ visible).prepend front
    · exact ranToEof_agrees _

variable {d text tokens contentStart}

def StructuredState.view (text : Text) (s : StructuredState) : View.State :=
  ⟨sigs text s.rest,s.depth,s.pendingBodies,s.absorbedBody,s.isCompound,s.parenDepth⟩

inductive TurnAgrees (text : Text) (tokens : List Token) (contentStart : Nat) (cur : List Token) :
    Turn StructuredState ScanOutcome → Turn View.State View.Ending → Prop where
  | next {after : StructuredState} :
      TurnAgrees text tokens contentStart cur (.next after) (.next (after.view text))
  | done : Agrees text tokens contentStart cur o e → TurnAgrees text tokens contentStart cur (.done o) (.done e)

theorem structuredWord_agrees (text : Text) (contentStart : Nat) (s : StructuredState) (word : isWord t.kind = true) (tail : rest <:+ tokens) :
    TurnAgrees text tokens contentStart (t :: rest) (structuredWord d text tokens contentStart s t rest)
      (View.structuredWord d (sigs text tokens) (s.view text) (lower (t.text text)) (sigs text rest)) := by
  have visible : isTrivial t.kind = false := by
    cases kind : t.kind <;> simp [kind,isWord,isTrivial] at word ⊢
  have shown : t.sig text = some (.word (lower (t.text text))) := by simp [Token.sig,visible,word]
  have marker (phrase : Phrase) : peekPhraseMatches text phrase (t :: rest) =
      View.peekPhrase phrase (.word (lower (t.text text)) :: sigs text rest) := by
    rw [← sigs_cons_some _ shown,← peekPhraseMatches_sig,skipTrivial,dropWhile_cons_of_neg (by simp [visible])]
  have header := @scanHeader_sig d text tokens 0 rest tail
  obtain ⟨cur,depth,pending,absorbed,compound,parens⟩ := s
  simp only [structuredWord,View.structuredWord,StructuredState.view,StructuredState.awaitsBody,
    View.State.awaitsBody,marker,wordIn_lower,isHeaderWord,← isBodyIntro_sig _ tail,← isCallSpec_sig,
    lower_eqIgnoreAsciiCase]
  generalize (compound || _) = compound
  split
  · exact .done ((scanToTerminator_agrees d text tokens contentStart rest).prepend [t])
  · split
    · obtain ⟨blank,whole,trivial⟩ := skipTrivial_split rest
      have agrees := (scanToTerminator_agrees d text tokens contentStart (skipTrivial rest)).prepend (t :: blank)
      rw [cons_append,← whole,sigs_skipTrivial] at agrees
      exact .done agrees
    · split
      · rw [← header.1,← header.2]
        exact .next
      · split
        · by_cases outer : (depth == 0) = true
          · simp only [outer,↓reduceIte]
            exact .done ((finishStructured_agrees d text tokens contentStart rest).prepend [t])
          · simp only [outer,Bool.false_eq_true,↓reduceIte,← skipEndQualifier_sig]
            exact .next
        · split
          · simp only [openBody,View.openBody]
            split
            · exact .next
            · split <;> exact .next
          · split <;> exact .next

theorem structuredTurn_agrees (d : SqlDialect) (text : Text) (contentStart : Nat) (s : StructuredState) (tail : s.rest <:+ tokens) :
    (∃ after, structuredTurn d text tokens contentStart s = .next after ∧ after.view text = s.view text) ∨
      TurnAgrees text tokens contentStart s.rest (structuredTurn d text tokens contentStart s)
        (View.structuredTurn d (sigs text tokens) (s.view text)) := by
  obtain ⟨cur,depth,pending,absorbed,compound,parens⟩ := s
  cases cur with
  | nil => exact .inr (.done (ranToEof_agrees _))
  | cons t rest =>
    have inner : rest <:+ tokens := (suffix_cons t rest).trans tail
    rcases t.sig_cases text with
      ⟨trivial,hidden⟩ | ⟨visible,word,shown⟩ | ⟨kind,shown⟩ | ⟨kind,shown⟩ | ⟨visible,noWord,noOperator,_,shown⟩
    · have noWord : isWord t.kind = false := by
        cases kind : t.kind <;> simp [kind,isWord,isTrivial] at trivial ⊢
      have noOperator := trivial_not_operator trivial
      refine .inl ⟨⟨rest,depth,pending,absorbed,compound,parens⟩,?_,?_⟩
      · simp [structuredTurn,slashLine_of_kind noOperator,noOperator,noWord]
      · simp [StructuredState.view,sigs_cons_none hidden]
    · have noOperator := word_not_operator word
      refine .inr ?_
      simp only [structuredTurn,View.structuredTurn,StructuredState.view,sigs_cons_some _ shown,
        slashLine_of_kind noOperator,Bool.and_false,Bool.false_eq_true,beq_eq_false_iff_ne.mpr noOperator,
        word,Bool.not_true,Bool.false_or,decide_eq_true_eq,↓reduceIte]
      split
      · exact .next
      · have agrees := structuredWord_agrees (d := d) text contentStart
          ⟨t :: rest,depth,pending,absorbed,compound,parens⟩ word inner
        rw [StructuredState.view,sigs_cons_some _ shown] at agrees
        exact agrees
    · refine .inr ?_
      have visible : isTrivial t.kind = false := by rw [kind]; rfl
      simp only [structuredTurn,View.structuredTurn,StructuredState.view,sigs_cons_some _ shown,kind,
        beq_self_eq_true,parenChange_sig,shown,map_some,getD_some,View.isLone,↓reduceIte]
      split
      · exact .done (sigs_cons_some _ shown ▸ endAtSlashLine_agrees _ visible)
      · exact .next
    · have noOperator : t.kind ≠ .operator := by rw [kind]; decide
      have silent : View.parenChange .directive = 0 := rfl
      refine .inr ?_
      simp only [structuredTurn,View.structuredTurn,StructuredState.view,sigs_cons_some _ shown,
        slashLine_of_kind noOperator,View.isLone,Bool.and_false,Bool.false_eq_true,
        kind,isWord,silent,Int32.add_zero,↓reduceIte]
      exact .next
    · have silent : View.parenChange .unread = 0 := rfl
      refine .inr ?_
      simp only [structuredTurn,View.structuredTurn,StructuredState.view,sigs_cons_some _ shown,
        slashLine_of_kind noOperator,View.isLone,Bool.and_false,Bool.false_eq_true,
        beq_eq_false_iff_ne.mpr noOperator,noWord,silent,Int32.add_zero,Bool.not_false,Bool.true_or,↓reduceIte]
      exact .next

theorem structured_agrees (ended : Turn.Ends (structuredTurn d text tokens contentStart) s o)
    (tail : s.rest <:+ tokens) :
    ∃ e, Turn.Ends (View.structuredTurn d (sigs text tokens)) (s.view text) e ∧
      Agrees text tokens contentStart s.rest o e := by
  obtain ⟨last,path,returned⟩ := ended
  induction path with
  | @refl s =>
    have turn := structuredTurn_agrees d text contentStart s tail
    rw [returned] at turn
    rcases turn with ⟨after,moved,_⟩ | turn
    · cases moved
    · generalize viewed : View.structuredTurn d (sigs text tokens) (s.view text) = v at turn
      cases turn with
      | done agrees => exact ⟨_,⟨_,.refl,viewed⟩,agrees⟩
  | @step s t u moved path ih =>
    obtain ⟨token,here,_⟩ := structuredTurn_next moved
    have inner : t.rest <:+ tokens :=
      ((suffix_append ..).trans (here ▸ suffix_cons ..)).trans tail
    obtain ⟨e,ended,agrees⟩ := ih inner returned
    have agrees := agrees.prepend (token :: unchecked d text tokens s)
    rw [cons_append,← here] at agrees
    have turn := structuredTurn_agrees d text contentStart s tail
    rw [moved] at turn
    rcases turn with ⟨after,same,view⟩ | turn
    · cases same
      exact ⟨e,view ▸ ended,agrees⟩
    · generalize viewed : View.structuredTurn d (sigs text tokens) (s.view text) = v at turn
      cases turn with
      | next => exact ⟨e,.before (.single viewed) ended,agrees⟩

end

section
variable {d : SqlDialect} {whole : List Sig} (view : List Sig)

theorem View.skipToTerminator_suffix : skipToTerminator d view <:+ view := by
  induction view with
  | nil => exact suffix_rfl
  | cons s rest ih =>
    simp only [skipToTerminator]
    split
    · exact suffix_cons ..
    · exact ih.trans (suffix_cons ..)

theorem View.skipWords_suffix : skipWords view <:+ view := by
  induction view with
  | nil => exact suffix_rfl
  | cons s rest ih =>
    simp only [skipWords]
    split
    · exact ih.trans (suffix_cons ..)
    · exact suffix_rfl

theorem View.skipEndQualifier_suffix : skipEndQualifier d view <:+ view := by
  have tail := skipWords_suffix view
  unfold skipEndQualifier
  split
  · exact nil_suffix
  · rename_i same
    rw [same] at tail
    split
    · exact (suffix_cons ..).trans tail
    · exact tail

theorem View.scanHeader_suffix (parenDepth : Int32) (view : List Sig) :
    (scanHeader d whole parenDepth view).1 <:+ view := by
  induction view generalizing parenDepth with
  | nil => exact suffix_rfl
  | cons s rest ih =>
    have later (parenDepth : Int32) := (ih parenDepth).trans (suffix_cons s rest)
    cases s with
    | word w =>
      simp only [scanHeader]
      split
      · split
        · exact (skipToTerminator_suffix rest).trans (suffix_cons ..)
        · exact suffix_cons ..
      · exact later _
    | _ =>
      simp only [scanHeader]
      split
      · exact later _
      · split
        · exact suffix_cons ..
        · exact later _

theorem View.structuredWord_suffix (moved : structuredWord d whole s w rest = .next t) : t.rest <:+ rest := by
  simp only [structuredWord] at moved
  split at moved
  · cases moved
  · split at moved
    · cases moved
    · split at moved
      · cases moved
        exact scanHeader_suffix 0 rest
      · split at moved
        · split at moved
          · cases moved
          · cases moved
            exact skipEndQualifier_suffix rest
        · split at moved
          · cases moved
            exact suffix_rfl
          · split at moved <;>
            · cases moved
              exact suffix_rfl

theorem View.structuredTurn_suffix (moved : structuredTurn d whole s = .next t) :
    ∃ first rest, s.rest = first :: rest ∧ t.rest <:+ rest := by
  obtain ⟨view,depth,pending,absorbed,compound,parens⟩ := s
  cases view with
  | nil => cases moved
  | cons s rest =>
    refine ⟨s,rest,rfl,?_⟩
    cases s with
    | word w =>
      simp only [structuredTurn] at moved
      split at moved
      · cases moved
        exact suffix_rfl
      · exact structuredWord_suffix moved
    | _ =>
      simp only [structuredTurn] at moved
      split at moved <;> cases moved
      exact suffix_rfl

theorem View.structuredTurn_decreasing : Turn.Decreasing (structuredTurn d whole) (·.rest.length) := by
  intro s t moved
  obtain ⟨first,rest,same,tail⟩ := structuredTurn_suffix moved
  simp only [same,length_cons]
  exact lt_succ_of_le tail.length_le

theorem View.scanStructured_eq (ended : Turn.Ends (structuredTurn d whole) (structuredStart starter rest) e) :
    scanStructured d whole starter rest = e := by
  have ran : Turn.run (structuredTurn d whole) (rest.length + 1) (structuredStart starter rest) = some e :=
    (Turn.run_iff_ends structuredTurn_decreasing (lt_succ_self _)).mpr ended
  rw [scanStructured,ran]
  rfl

end

theorem scanStatement_agrees (d : SqlDialect) (text : Text) (contentStart : Nat) (tail : start <:+ tokens) :
    Agrees text tokens contentStart start (scanStatement d text tokens contentStart start)
      (View.scanStatement d (sigs text tokens) (sigs text start)) := by
  have same := @matchedStarter_sig d text start
  unfold scanStatement View.scanStatement
  rw [← same]
  cases matched : matchedStarter d text start with
  | none => exact scanPlain_agrees d text tokens contentStart start
  | some found =>
    obtain ⟨starter,after⟩ := found
    obtain ⟨front,rfl⟩ := matchedStarter_suffix matched
    simp only [map_some]
    cases starter.kind with
    | structured =>
      have inner : (structuredStart starter after).rest <:+ tokens := (suffix_append ..).trans tail
      have returns : Turn.Ends (structuredTurn d text tokens contentStart) (structuredStart starter after)
        (scanStructured d text tokens contentStart starter after) := scanStructured_ends starter after
      obtain ⟨e,ended,agrees⟩ := structured_agrees returns inner
      exact (View.scanStructured_eq ended ▸ agrees).prepend front
    | opaqueSource => exact (scanOpaqueSource_agrees text tokens contentStart after).prepend front
    | parenDelimited => exact (scanParenDelimited_agrees d text tokens contentStart 0 after).prepend front

end Reldex
