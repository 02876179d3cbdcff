import Reldex.PlsqlUnits

/-! `CASE` expressions inside a unit. The first `END` of such an expression takes every word
that follows it, up to the next token that is no word. The scan then stands as deep as the
`CASE` words before that `END` say, less one, while the unit stands as deep as the skipped
words that open blocks say; the unit keeps its boundary when the former is not less. -/
namespace Reldex
open List Option Nat
variable {u : UnicodeTables} {keywords : List Text}

def caseWord : Sig := .word "case".toList

/-- A searched `CASE` expression over identifiers, or an identifier in one. -/
inductive CaseOperand where
  | identifier (w : Text)
  | caseWhen (condition result : CaseOperand)
  | caseElse (condition result otherwise : CaseOperand)
  deriving DecidableEq, Repr

namespace CaseOperand

def sigs : CaseOperand → List Sig
  | .identifier w => [.word w]
  | .caseWhen condition result =>
    caseWord :: .word "when".toList :: condition.sigs ++ .word "then".toList :: result.sigs ++ [endWord]
  | .caseElse condition result otherwise =>
    caseWord :: .word "when".toList :: condition.sigs ++ .word "then".toList :: result.sigs ++
      .word "else".toList :: otherwise.sigs ++ [endWord]

def isCase : CaseOperand → Bool
  | .identifier _ => false
  | _ => true

def Valid (d : SqlDialect) : CaseOperand → Prop
  | .identifier w => Sig.quiet d (.word w) = true
  | .caseWhen condition result => condition.Valid d ∧ result.Valid d
  | .caseElse condition result otherwise => condition.Valid d ∧ result.Valid d ∧ otherwise.Valid d

def opened (x : CaseOperand) : Nat := (x.sigs.takeWhile (· != endWord)).count caseWord

def IsInner (d : SqlDialect) (s : Sig) : Prop := s = caseWord ∨ View.isWord s = true ∧ s.quiet d = true

theorem sigs_inner {x : CaseOperand} (valid : x.Valid (oracleLike keywords)) :
    ∀ s ∈ x.sigs, s = endWord ∨ IsInner (oracleLike keywords) s := by
  have word (w : Text) (quiet : Sig.quiet (oracleLike keywords) (.word w) = true) :
      Sig.word w = endWord ∨ IsInner (oracleLike keywords) (.word w) := .inr (.inr ⟨rfl,quiet⟩)
  induction x with
  | identifier w => exact forall_mem_singleton.mpr (word w valid)
  | caseWhen condition result ih ih' =>
    simp only [sigs,forall_mem_append,forall_mem_cons]
    exact ⟨⟨⟨.inr (.inl rfl),word _ rfl,ih valid.1⟩,word _ rfl,ih' valid.2⟩,.inl trivial,forall_mem_nil _⟩
  | caseElse condition result otherwise ih ih' ih'' =>
    simp only [sigs,forall_mem_append,forall_mem_cons]
    exact ⟨⟨⟨⟨.inr (.inl rfl),word _ rfl,ih valid.1⟩,word _ rfl,ih' valid.2.1⟩,word _ rfl,ih'' valid.2.2⟩,
      .inl trivial,forall_mem_nil _⟩

theorem sigs_split {x : CaseOperand} (cased : x.isCase = true) :
    ∃ inner rest, x.sigs = caseWord :: inner ++ endWord :: rest ∧ x.opened = (caseWord :: inner).count caseWord ∧
      endWord ∉ caseWord :: inner := by
  have found : ∃ rest, x.sigs = caseWord :: rest ∧ endWord ∈ rest := by
    cases x with
    | identifier w => cases cased
    | caseWhen condition result => exact ⟨_,rfl,by simp⟩
    | caseElse condition result otherwise => exact ⟨_,rfl,by simp⟩
  obtain ⟨rest,front,member⟩ := found
  obtain ⟨inner,after,rfl,clear⟩ := eq_append_cons_of_mem member
  refine ⟨inner,after,by rw [front]; rfl,?_,by simp [clear]; decide⟩
  have stops : (caseWord :: inner ++ endWord :: after).takeWhile (· != endWord) = caseWord :: inner := by
    rw [takeWhile_append_of_pos]
    · simp
    · intro s member
      rcases mem_cons.mp member with rfl | member
      · decide
      · exact bne_iff_ne.mpr fun same => clear (same ▸ member)
  rw [opened,front,← cons_append,stops]

theorem opened_pos {x : CaseOperand} (cased : x.isCase = true) : 0 < x.opened := by
  obtain ⟨inner,rest,_,opened,_⟩ := sigs_split cased
  rw [opened,count_cons_self]
  exact succ_pos _

end CaseOperand

def casePiece (s : Sig) : Piece := if s = caseWord then .opener .case else .plain s

theorem casePiece_sigs (s : Sig) : (casePiece s).sigs = [s] := by
  unfold casePiece
  split
  · subst s; rfl
  · rfl

theorem casePieces_tokens (words : List Sig) : tokensOf (words.map casePiece) = words := by
  induction words with
  | nil => rfl
  | cons s words ih => rw [map_cons,tokensOf_cons,casePiece_sigs,ih]; rfl

theorem casePieces_run (c : Counters) (words : List Sig) :
    c.run (words.map casePiece) = some { c with depth := c.depth + words.count caseWord } := by
  induction words generalizing c with
  | nil => rfl
  | cons s words ih =>
    rw [map_cons,Counters.run_cons,casePiece,count_cons]
    by_cases here : s = caseWord
    · simp [here,Counters.advance,ih,add_assoc,add_comm 1]
    · simp [here,Counters.advance,ih]

def opensBlock (s : Sig) : Bool := s == beginWord || s == .word "if".toList || s == .word "loop".toList || s == caseWord

/-- The words that the first `END` of an expression takes from what follows it, as far as
they open blocks. -/
def skippedOpeners (after : List Sig) : Nat := (after.takeWhile View.isWord).countP opensBlock

theorem quiet_opens_nothing (quiet : Sig.quiet (oracleLike keywords) s = true) : opensBlock s = false := by
  refine Bool.eq_false_iff.mpr fun opens => ?_
  simp only [opensBlock,Bool.or_eq_true,beq_iff_eq] at opens
  rcases opens with ((rfl | rfl) | rfl) | rfl <;> cases quiet

theorem opener_opens (o : Opener) : opensBlock (.word o.word) = true := by cases o <;> rfl

/-- A piece that starts with no word; the counters stay. -/
structure Piece.Stops (d : SqlDialect) (p : Piece) : Prop where
  valid : p.Valid d
  front : ∃ s rest, p.sigs = s :: rest ∧ View.isWord s = false
  still : ∀ c : Counters, c.advance p = some c

/-- Words, and then a piece that starts with no word, from which the run goes on. -/
def StopsAfterWords (keywords : List Text) (s : Site) (pieces : List Piece) (t : Site) : Prop :=
  ∃ words p later next, pieces = words ++ p :: later ∧ (∀ x ∈ tokensOf words, View.isWord x = true) ∧
    p.Stops (oracleLike keywords) ∧ Site.Runs keywords next later t ∧
    next.toCounters = { s.toCounters with depth := s.depth + (tokensOf words).countP opensBlock }

theorem stops_after_words (runs : Site.Runs keywords s pieces t)
    (inside : s.fresh = false) (boundary : t.fresh = true) : StopsAfterWords keywords s pieces t := by
  induction runs with
  | nil => rw [inside] at boundary; cases boundary
  | @cons s p m pieces t step runs ih =>
    have onward {x : Sig} (one : p.sigs = [x]) (word : View.isWord x = true) (stays : m.fresh = false)
        (deeper : m.toCounters = { s.toCounters with depth := s.depth + if opensBlock x then 1 else 0 }) :
        StopsAfterWords keywords s (p :: pieces) t := by
      obtain ⟨words,q,later,next,rfl,all,stops,runs,same⟩ := ih stays boundary
      refine ⟨p :: words,q,later,next,rfl,?_,stops,runs,?_⟩
      · rw [tokensOf_cons,one,singleton_append]
        exact forall_mem_cons.mpr ⟨word,all⟩
      · rw [same,tokensOf_cons,one,singleton_append,countP_cons,deeper]
        simp only [add_assoc,add_comm (List.countP ..)]
    have stop (stops : p.Stops (oracleLike keywords)) : StopsAfterWords keywords s (p :: pieces) t :=
      ⟨[],p,pieces,m,rfl,forall_mem_nil _,stops,runs,some.inj (step.moved.symm.trans (stops.still _))⟩
    have moved := step.moved
    have allowed := step.allowed
    cases p with
    | plain x =>
      by_cases word : View.isWord x = true
      · refine onward rfl word ?_ ?_
        · rw [step.fresh]
          cases x with
          | word w => rfl
          | _ => cases word
        · rw [quiet_opens_nothing step.valid]
          exact (some.inj moved).symm
      · exact stop ⟨step.valid,⟨x,[],rfl,by simpa using word⟩,fun c => rfl⟩
    | group inner => exact stop ⟨step.valid,⟨_,_,rfl,rfl⟩,fun c => rfl⟩
    | opener o =>
      refine onward rfl rfl step.fresh ?_
      rw [opener_opens]
      exact (some.inj moved).symm
    | begin =>
      refine onward rfl rfl step.fresh ?_
      rcases allowed with nested | fresh
      · rw [← some.inj moved,Counters.openBody_nested nested]
        rfl
      · rw [inside] at fresh; cases fresh
    | close name => exact absurd (inside.symm.trans allowed) (by decide)
    | header keyword signature intro => exact absurd (inside.symm.trans allowed) (by decide)
    | forward keyword signature => exact absurd (inside.symm.trans allowed) (by decide)

section
variable {whole rest front : List Sig} {c c' : Counters}

theorem skipWords_front (words : ∀ s ∈ front, View.isWord s = true) (rest : List Sig) :
    View.skipWords (front ++ rest) = View.skipWords rest := by
  induction front with
  | nil => rfl
  | cons s front ih =>
    obtain ⟨first,words⟩ := forall_mem_cons.mp words
    rw [cons_append,View.skipWords,if_pos first,ih words]

theorem qualifier_reaches {p : Piece} (words : ∀ s ∈ front, View.isWord s = true)
    (stops : p.Stops (oracleLike keywords)) (clear : View.isCallSpec (oracleLike keywords) rest = false)
    (here : c.At (p.sigs ++ rest) whole) :
    Leads keywords whole
      (c.state (View.skipEndQualifier (oracleLike keywords) (front ++ (p.sigs ++ rest)))) (c.state rest) := by
  have onward := advance_reaches stops.valid (stops.still c) clear here
  obtain ⟨s,inner,same,noWord⟩ := stops.front
  have skipped : View.skipWords (front ++ (p.sigs ++ rest)) = s :: (inner ++ rest) := by
    rw [skipWords_front words,same,cons_append,View.skipWords,noWord]
    rfl
  rw [same,cons_append] at onward
  have qualifier : View.skipEndQualifier (oracleLike keywords) (front ++ (p.sigs ++ rest)) =
      if View.isTerminator (oracleLike keywords) s then inner ++ rest else s :: (inner ++ rest) := by
    rw [View.skipEndQualifier,skipped]
  rw [qualifier]
  cases ends : View.isTerminator (oracleLike keywords) s with
  | false => exact onward
  | true =>
    -- Only a plain piece can be a terminator, and nothing of it is left.
    cases p with
    | plain x => cases same; exact .refl
    | group x => cases same; cases ends
    | _ => cases same; cases noWord

theorem case_reaches {x : CaseOperand} {p : Piece} (cased : x.isCase = true) (valid : x.Valid (oracleLike keywords))
    (words : ∀ s ∈ front, View.isWord s = true) (stops : p.Stops (oracleLike keywords))
    (clear : View.isCallSpec (oracleLike keywords) rest = false)
    (here : c.At (x.sigs ++ (front ++ (p.sigs ++ rest))) whole) :
    Leads keywords whole (c.state (x.sigs ++ (front ++ (p.sigs ++ rest))))
      (Counters.state { c with depth := c.depth + (x.opened - 1) } rest) ∧
    Counters.At { c with depth := c.depth + (x.opened - 1) } rest whole := by
  obtain ⟨inner,after,same,opened,noEnd⟩ := CaseOperand.sigs_split cased
  have all := CaseOperand.sigs_inner valid
  have regroup : x.sigs ++ (front ++ (p.sigs ++ rest)) =
      tokensOf ((caseWord :: inner).map casePiece) ++ endWord :: ((after ++ front) ++ (p.sigs ++ rest)) := by
    rw [same,casePieces_tokens]
    simp
  rw [regroup] at here ⊢
  have pieces : ∀ q ∈ (caseWord :: inner).map casePiece, q.Valid (oracleLike keywords) := by
    intro q member
    obtain ⟨s,inside,rfl⟩ := mem_map.mp member
    rcases all s (same ▸ mem_append_left _ inside) with rfl | rfl | ⟨_,quiet⟩
    · exact absurd inside noEnd
    · trivial
    · unfold casePiece
      split
      · trivial
      · exact quiet
  have skipped : ∀ s ∈ after ++ front, View.isWord s = true := by
    refine forall_mem_append.mpr ⟨fun s member => ?_,words⟩
    rcases all s (same ▸ by simp [member]) with rfl | rfl | ⟨word,_⟩
    · rfl
    · rfl
    · exact word
  have positive := CaseOperand.opened_pos cased
  have opening := run_reaches pieces (casePieces_run c (caseWord :: inner)) end_not_callSpec here
  have opens := run_at (casePieces_run c (caseWord :: inner)) here
  rw [← opened] at opening opens
  have closed : Counters.At { c with depth := c.depth + x.opened - 1 } (p.sigs ++ rest) whole := by
    refine ⟨(((suffix_append ..).trans (suffix_cons ..)).trans opens.tail),?_⟩
    have fits := opens.fits
    simp only [length_cons,length_append] at fits ⊢
    omega
  have closing : Leads keywords whole
      (Counters.state { c with depth := c.depth + x.opened } (endWord :: ((after ++ front) ++ (p.sigs ++ rest))))
      (Counters.state { c with depth := c.depth + x.opened - 1 } rest) :=
    .step (inner_end_turn opens (by simp only; omega)) (qualifier_reaches skipped stops clear closed)
  rw [Nat.add_sub_assoc positive] at closing closed
  exact ⟨opening.trans closing,closed.skip⟩

end

theorem run_shallower {c c' shallow : Counters} (ran : c.run pieces = some c') (bottom : c'.depth = 0) (positive : 0 < gap)
    (shallower : shallow.depth + gap ≤ c.depth) :
    ∃ front name back last, pieces = front ++ .close name :: back ∧ shallow.run front = some last ∧ last.depth = 0 := by
  induction pieces generalizing c shallow with
  | nil => cases ran; omega
  | cons p pieces ih =>
    obtain ⟨next,moved,later⟩ := bind_eq_some_iff.mp ran
    have onward {shallow' : Counters} (moved' : shallow.advance p = some shallow')
        (shallower : shallow'.depth + gap ≤ next.depth) : ∃ front name back last,
          p :: pieces = front ++ .close name :: back ∧ shallow.run front = some last ∧ last.depth = 0 := by
      obtain ⟨front,name,back,last,rfl,ran,zero⟩ := ih later shallower
      exact ⟨p :: front,name,back,last,rfl,by rw [Counters.run_cons,moved']; exact ran,zero⟩
    cases p with
    | begin =>
      refine onward rfl ?_
      rw [← some.inj moved,Counters.openBody_nested (.inl (by omega : 0 < c.depth))]
      unfold Counters.openBody
      split
      · simp only; omega
      · split <;> simp only <;> omega
    | close name =>
      simp only [Counters.advance,ite_none_left_eq_some,some.injEq] at moved
      obtain ⟨inside,rfl⟩ := moved
      by_cases closes : shallow.depth = 0
      · exact ⟨[],name,pieces,shallow,rfl,rfl,closes⟩
      · exact onward (if_neg closes) (by simp only; omega)
    | opener o =>
      cases moved
      exact onward rfl (by simp only; omega)
    | _ => cases moved; exact onward rfl shallower

/-- A unit with a `CASE` expression in place of an expression, as text. -/
structure CaseUnit (u : UnicodeTables) (keywords : List Text) extends UnitPlace keywords .expression where
  expression : CaseOperand
  cased : expression.isCase = true
  valid : expression.Valid (oracleLike keywords)
  source : Source u keywords (toUnitPlace.view expression.sigs)

namespace CaseUnit

def tokens (unit : CaseUnit u keywords) : List Sig := unit.view unit.expression.sigs
def skipped (unit : CaseUnit u keywords) : Nat := skippedOpeners (tokensOf unit.after)

def OneSpan (unit : CaseUnit u keywords) : Prop :=
  ∃ span, splitStatements u (oracleLike keywords) unit.source.text = some [span] ∧ span.kind = .block ∧
    (span.content unit.source.text = some unit.source.content ∨ span.content unit.source.text = some unit.source.text)

def rest (unit : CaseUnit u keywords) (later : List Piece) : List Sig :=
  tokensOf later ++ endWord :: (unit.name.toList ++ [semi])

variable (unit : CaseUnit u keywords)

theorem after_named (name : Option Sig) (member : .close name ∈ unit.after) :
    isNaming name := by
  obtain ⟨s,_,_,after⟩ := unit.runs
  obtain ⟨t,runs,_⟩ := after { s with fresh := false } rfl
  exact (runs_counters runs).1 _ member

structure Resumes (unit : CaseUnit u keywords) (c last : Counters) (later : List Piece) : Prop where
  inside : ∀ p ∈ later, p ∈ unit.after
  valid : ∀ p ∈ later, p.Valid (oracleLike keywords)
  stands : Counters.At { c with depth := c.depth + (unit.expression.opened - 1) } (unit.rest later) unit.tokens
  ran : Counters.run { c with depth := c.depth + unit.skipped } later = some last
  bottom : last.depth = 0
  scan : ∀ e, Turn.Ends (View.structuredTurn (oracleLike keywords) unit.tokens)
    (Counters.state { c with depth := c.depth + (unit.expression.opened - 1) } (unit.rest later)) e →
      View.scanStatement (oracleLike keywords) unit.tokens unit.tokens = e

theorem resumes (short : unit.tokens.length < 2 ^ 31) : ∃ c last later, unit.Resumes c last later := by
  obtain ⟨s,before,_,after⟩ := unit.runs
  obtain ⟨t,runs,last⟩ := after { s with fresh := false } rfl
  obtain ⟨words,p,later,next,cut,all,stops,runs,counters⟩ := stops_after_words runs rfl last.fresh
  obtain ⟨valid,ran⟩ := runs_counters runs
  have skipped : unit.skipped = (tokensOf words).countP opensBlock := by
    obtain ⟨x,inner,front,noWord⟩ := stops.front
    rw [CaseUnit.skipped,skippedOpeners,cut,tokensOf_append,tokensOf_cons,takeWhile_append_of_pos all,front]
    simp [noWord]
  have regroup : unit.expression.sigs ++ (tokensOf unit.after ++ endWord :: (unit.name.toList ++ [semi])) =
      unit.expression.sigs ++ (tokensOf words ++ (p.sigs ++ unit.rest later)) := by simp [cut,rest]
  have whole : unit.opening.counters.At (unit.view unit.expression.sigs ++ []) unit.tokens :=
    .start (by rw [append_nil]; exact suffix_rfl) short _
  have clear : View.isCallSpec (oracleLike keywords) (unit.rest later) = false :=
    tokensOf_not_callSpec valid end_not_callSpec
  obtain ⟨path,stands⟩ := case_reaches unit.cased unit.valid all stops clear (regroup ▸ UnitPlace.stands before whole)
  refine ⟨s.toCounters,_,later,fun q member => by simp [cut,member],valid,stands,?_,last.depth,?_⟩
  · rw [skipped]
    exact counters ▸ ran
  · intro e ended
    have first : View.isCallSpec (oracleLike keywords) (unit.expression.sigs ++ (tokensOf unit.after ++
        endWord :: (unit.name.toList ++ [semi]))) = false := by
      obtain ⟨inner,rest,same,_⟩ := CaseOperand.sigs_split unit.cased
      rw [same]
      exact word_not_callSpec (by decide) (by decide)
    have ended := ended.before path
    rw [← regroup] at ended
    have scanned := UnitPlace.scan before first whole ended
    rwa [append_nil] at scanned

section
variable (short : unit.tokens.length < 2 ^ 31)
include short

/-- The expression leaves as many blocks open as its `END` skips: the unit closes at its
own last `END`. -/
theorem scan_same (same : unit.skipped + 1 = unit.expression.opened) :
    View.scanStatement (oracleLike keywords) unit.tokens unit.tokens =
      View.finishStructured (oracleLike keywords) (unit.name.toList ++ [semi]) := by
  obtain ⟨c,last,later,here⟩ := unit.resumes short
  have scan := here.scan
  have stands := here.stands
  rw [← same,Nat.add_sub_cancel] at scan stands
  exact scan _ ⟨_,run_reaches here.valid here.ran end_not_callSpec stands,end_turn (run_at here.ran stands) here.bottom⟩

/-- It leaves more open: no `END` of the unit closes it. -/
theorem scan_deeper (deeper : unit.skipped + 1 < unit.expression.opened) :
    View.scanStatement (oracleLike keywords) unit.tokens unit.tokens = View.ranToEof .block := by
  obtain ⟨c,last,later,here⟩ := unit.resumes short
  obtain ⟨deep,ran,above⟩ := @run_deeper later (unit.expression.opened - 1 - unit.skipped) _ _
    { c with depth := c.depth + (unit.expression.opened - 1) } here.ran (by omega) (by simp only; omega)
  have closed : deep.advance (.close unit.name) = some { deep with depth := deep.depth - 1 } :=
    if_neg (by omega)
  have all : (Counters.mk (c.depth + (unit.expression.opened - 1)) c.pending c.absorbed).run
      (later ++ [.close unit.name]) = some { deep with depth := deep.depth - 1 } := by
    rw [Counters.run_append,ran,bind_some,Counters.run_cons,closed]
    rfl
  have valid : ∀ p ∈ later ++ [.close unit.name], p.Valid (oracleLike keywords) :=
    forall_mem_append.mpr ⟨here.valid,forall_mem_singleton.mpr unit.named⟩
  have regroup : unit.rest later = tokensOf (later ++ [.close unit.name]) ++ [] := by simp [rest,Piece.sigs]
  refine here.scan _ ⟨Counters.state { deep with depth := deep.depth - 1 } [],?_,rfl⟩
  have stands := here.stands
  rw [regroup] at stands ⊢
  exact run_reaches valid all rfl stands

/-- It leaves less open: an `END` inside the unit closes it. -/
theorem scan_shallower (shallower : unit.expression.opened ≤ unit.skipped) :
    ∃ name back, .close name ∈ unit.after ∧ View.scanStatement (oracleLike keywords) unit.tokens unit.tokens =
      View.finishStructured (oracleLike keywords) (name.toList ++ semi :: unit.rest back) := by
  obtain ⟨c,last,later,here⟩ := unit.resumes short
  have positive := CaseOperand.opened_pos unit.cased
  obtain ⟨front,name,back,stop,rfl,ran,bottom⟩ := @run_shallower later (unit.skipped + 1 - unit.expression.opened) _ _
    { c with depth := c.depth + (unit.expression.opened - 1) } here.ran here.bottom (by omega) (by simp only; omega)
  have regroup : unit.rest (front ++ .close name :: back) =
      tokensOf front ++ endWord :: (name.toList ++ semi :: unit.rest back) := by simp [rest,Piece.sigs]
  have stands := here.stands
  rw [regroup] at stands
  refine ⟨name,back,here.inside _ (by simp),here.scan _ ⟨_,?_,end_turn (run_at ran stands) bottom⟩⟩
  rw [regroup]
  exact run_reaches (fun p member => here.valid p (mem_append_left _ member)) ran end_not_callSpec stands

end

theorem view_front : ∃ w rest, unit.tokens = .word w :: rest := by
  obtain ⟨w,rest,same⟩ := unit.opening.words_front
  exact ⟨w,_,by rw [tokens,UnitPlace.view,same]; rfl⟩

variable (scanned : View.scanStatement (oracleLike keywords) unit.tokens unit.tokens = e)
include scanned

theorem spans_shown :
    ∃ span spans statements, splitStatements u (oracleLike keywords) unit.source.text = some (span :: spans) ∧
      View.Splits (oracleLike keywords) unit.tokens e.next statements ∧
      Shown unit.source.text (unit.source.lexemes ++ [semiLexeme]) span (unit.tokens,e) ∧
      List.Forall₂ (Shown unit.source.text (unit.source.lexemes ++ [semiLexeme])) spans statements := by
  obtain ⟨w,rest,front⟩ := unit.view_front
  have viewed : lexSigs [] (unit.source.lexemes ++ [semiLexeme]) = unit.tokens := unit.source.viewed
  rw [← viewed] at front scanned ⊢
  exact first_shown (lexemes_of_lexText unit.source.lexed) front scanned

theorem oneSpan (last : e.next = [])
    (exact : e.trimmed = false) (block : e.kind = .block) (closer : e.closer = [] ∨ e.closer = [semi]) :
    unit.OneSpan := by
  obtain ⟨span,spans,statements,split,later,first,others⟩ := unit.spans_shown scanned
  rw [last] at later
  cases later
  cases forall₂_nil_right_iff.mp others
  refine ⟨span,split,?_⟩
  rcases closer with none | semi
  · have viewed : lexSigs [] (unit.source.lexemes ++ [semiLexeme]) = unit.tokens := unit.source.viewed
    have shows := @Shown.shows _ [] (unit.source.lexemes ++ [semiLexeme]) [] _ _ _ first (by simp)
      (by simpa using unit.source.visible []) (by simp [Visible]) (by simp [flat,viewed]) (by rw [none]; rfl)
    refine ⟨shows.kind.trans block,.inr ?_⟩
    rw [shows.content,exact]
    simp [Source.text,Source.content,semiLexeme]
  · rw [← append_nil unit.tokens] at first
    have shows := @Source.shows _ _ _ _ [] [] [] _ _ _ unit.source rfl rfl semi first
    refine ⟨shows.kind.trans block,.inl ?_⟩
    rw [shows.content,exact]
    rfl

end CaseUnit

/-- A searched `CASE` expression over identifiers in place of any expression of a unit: the
unit stays one span if fewer blocks are opened by the words behind the expression than
`CASE` words stand before its first `END`, and only then unless a name after an `END` is
quoted. The text is short enough for the scan's counters. -/
theorem case_expression_keeps_unit (unit : CaseUnit u keywords) (short : len unit.source.text < 2 ^ 31) :
    (unit.skipped < unit.expression.opened → unit.OneSpan) ∧
      ((∀ name, .close name ∈ unit.after → name ≠ some .unread) → unit.OneSpan →
        unit.skipped < unit.expression.opened) := by
  have short : unit.tokens.length < 2 ^ 31 := by
    have viewed : lexSigs [] (unit.source.lexemes ++ [semiLexeme]) = unit.tokens := unit.source.viewed
    exact viewed ▸ lt_of_le_of_lt (view_le_len (lexemes_of_lexText unit.source.lexed)) short
  constructor
  · intro less
    rcases lt_or_eq_of_le (succ_le_of_lt less) with deeper | same
    · exact unit.oneSpan (unit.scan_deeper short deeper) rfl rfl rfl (.inl rfl)
    · by_cases quoted : unit.name = some .unread
      · have scanned := unit.scan_same short same
        rw [quoted] at scanned
        exact unit.oneSpan (scanned.trans (finish_quoted [semi])) rfl rfl rfl (.inl rfl)
      · exact unit.oneSpan ((unit.scan_same short same).trans (finish_unquoted unit.named quoted [])) rfl rfl rfl (.inr rfl)
  · rintro unquoted ⟨span,split,_⟩
    by_contra more
    obtain ⟨name,back,member,scanned⟩ := unit.scan_shallower short (Nat.le_of_not_lt more)
    rw [finish_unquoted (unit.after_named name member) (unquoted name member)] at scanned
    obtain ⟨first,spans,statements,again,later,_,others⟩ := unit.spans_shown scanned
    -- The last `END` of the unit is left over, so there is a second statement.
    have left : endWord ∈ unit.rest back := by simp [CaseUnit.rest]
    have some := later.ne_nil (View.finish_next_mem left) rfl
    rw [split] at again
    cases again
    exact some (forall₂_nil_left_iff.mp others)

def assignLexeme : Lexeme := ⟨.operator,":=".toList,.normal,.normal⟩

/-- `BEGIN x := CASE WHEN a THEN b END; END;` from an assignment of any expression. -/
def caseAssignment : CaseUnit asciiTables [] where
  opening := .anonymous
  declarations := []
  body := statementPart
  parts := anonymous_parts
  before := [keyword "x",.plain (.operator ":=".toList false)]
  after := [.plain semi]
  derived := by
    have quiet : ∀ p ∈ [keyword "x",.plain (.operator ":=".toList false)], p.Quiet (oracleLike []) :=
      forall_mem_cons.mpr ⟨⟨by decide +kernel,rfl⟩,forall_mem_singleton.mpr ⟨rfl,rfl⟩⟩
    have assigns := @Production.simple _ _ [] quiet (forall_mem_nil _)
    have unit := Grammar.Yields.expand (Production.lastStatement)
      (Grammar.Yields.expand assigns (.refl _ _) .nil) (.expand .noHandlers .nil .nil)
    exact unit
  name := none
  named := isNaming_none
  expression := .caseWhen (.identifier "a".toList) (.identifier "b".toList)
  cased := rfl
  valid := by constructor <;> rfl
  source := {
    lexemes := [wordLexeme "BEGIN",blankLexeme,wordLexeme "x",blankLexeme,assignLexeme,blankLexeme,wordLexeme "CASE",
      blankLexeme,wordLexeme "WHEN",blankLexeme,wordLexeme "a",blankLexeme,wordLexeme "THEN",blankLexeme,
      wordLexeme "b",blankLexeme,wordLexeme "END",semiLexeme,blankLexeme,wordLexeme "END"]
    lexed := by decide +kernel
    starts := by rintro l ⟨⟩; rfl
    viewed := by decide +kernel }

theorem case_assignment_kept : caseAssignment.source.text = "BEGIN x := CASE WHEN a THEN b END; END;".toList ∧
    caseAssignment.OneSpan :=
  ⟨by decide +kernel,(case_expression_keeps_unit caseAssignment (by decide +kernel)).1 (by decide +kernel)⟩

/-- The `END` of the condition takes `THEN BEGIN`, and the last `END` is left over. -/
theorem case_condition_cuts_unit :
    splitStatements asciiTables (oracleLike []) "BEGIN IF a THEN BEGIN NULL; END; END IF; END;".toList =
      some [⟨0,44,45,1,1,.block,.inferredBlockEnd,true⟩] ∧
    splitStatements asciiTables (oracleLike [])
      "BEGIN IF CASE WHEN a THEN b END THEN BEGIN NULL; END; END IF; END;".toList =
        some [⟨0,60,61,1,1,.block,.inferredBlockEnd,true⟩,⟨62,65,66,1,63,.plain,.terminator,true⟩] := by
  constructor <;> decide +kernel

end Reldex
