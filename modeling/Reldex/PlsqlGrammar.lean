import Reldex.Grammar
import Reldex.PlsqlPieces

/-! The nested PL/SQL grammar over pieces. `Site` adds to the counters what the grammar
knows beyond them; every production keeps the counters in step with the nesting, so the
counters at any place of a derivation follow from the place alone. -/
namespace Reldex
open Nat
open List hiding after replace

inductive Nonterminal where
  | expression | statement | statements | elsifs | otherwise | whens | handlers
  | declaration | declarations
  deriving DecidableEq, Repr

abbrev Form := List (Symbol Piece Nonterminal)

def keyword (w : String) : Piece := .plain (.word w.toList)

/-- A piece of an expression, a simple statement or a label. -/
def Piece.Quiet (d : SqlDialect) : Piece → Prop
  | .plain s => s.quiet d = true ∧ View.isTerminator d s = false
  | .group inner => Balanced inner
  | _ => False

def piecesForm (pieces : List Piece) : Form := pieces.map .terminal

def isNaming (name : Option Sig) : Prop := ∀ s ∈ name, s.isName = true

theorem isNaming_none : isNaming none := by simp [isNaming]

theorem isNaming_word (w : Text) : isNaming (some (.word w)) := by
  rintro s ⟨⟩
  rfl

/-- Productions. Everything between structural words is an expression or quiet; a block may
carry a label, which is quiet too. -/
inductive Production (d : SqlDialect) : Nonterminal → Form → Prop where
  | expression : (∀ p ∈ tokens, p.Quiet d) → tokens ≠ [] → Production d .expression (piecesForm tokens)
  | simple : (∀ p ∈ front, p.Quiet d) → (∀ p ∈ back, p.Quiet d) → Production d .statement
      (piecesForm front ++ .nonterminal .expression :: piecesForm back ++ [.terminal (.plain semi)])
  | ifThen : Production d .statement
      [.terminal (.opener .ifThen),.nonterminal .expression,.terminal (keyword "then"),.nonterminal .statements,
        .nonterminal .elsifs,.nonterminal .otherwise,.terminal (.close (some (.word "if".toList)))]
  | noElsif : Production d .elsifs []
  | elsif : Production d .elsifs
      [.terminal (keyword "elsif"),.nonterminal .expression,.terminal (keyword "then"),.nonterminal .statements,
        .nonterminal .elsifs]
  | noElse : Production d .otherwise []
  | otherwise : Production d .otherwise [.terminal (keyword "else"),.nonterminal .statements]
  | loop : Production d .statement [.terminal (.opener .loop),.nonterminal .statements,
      .terminal (.close (some (.word "loop".toList)))]
  | whileLoop : Production d .statement [.terminal (keyword "while"),.nonterminal .expression,
      .terminal (.opener .loop),.nonterminal .statements,.terminal (.close (some (.word "loop".toList)))]
  | forRange : (∀ p ∈ target, p.Quiet d) → Production d .statement
      (.terminal (keyword "for") :: piecesForm target ++ [.nonterminal .expression,
        .terminal (.plain (.operator ['.','.'] false)),.nonterminal .expression,.terminal (.opener .loop),
        .nonterminal .statements,.terminal (.close (some (.word "loop".toList)))])
  | forEach : (∀ p ∈ target, p.Quiet d) → Production d .statement
      (.terminal (keyword "for") :: piecesForm target ++ [.nonterminal .expression,.terminal (.opener .loop),
        .nonterminal .statements,.terminal (.close (some (.word "loop".toList)))])
  | caseWhen : Production d .statement [.terminal (.opener .case),.nonterminal .whens,.nonterminal .otherwise,
      .terminal (.close (some (.word "case".toList)))]
  | lastWhen : Production d .whens [.terminal (keyword "when"),.nonterminal .expression,.terminal (keyword "then"),
      .nonterminal .statements]
  | moreWhens : Production d .whens [.terminal (keyword "when"),.nonterminal .expression,.terminal (keyword "then"),
      .nonterminal .statements,.nonterminal .whens]
  | block : (∀ p ∈ label, p.Quiet d) → isNaming name → Production d .statement
      (piecesForm label ++ [.terminal .begin,.nonterminal .statements,.nonterminal .handlers,.terminal (.close name)])
  | noHandlers : Production d .handlers []
  | handlers : Production d .handlers [.terminal (keyword "exception"),.nonterminal .whens]
  | lastStatement : Production d .statements [.nonterminal .statement]
  | moreStatements : Production d .statements [.nonterminal .statement,.nonterminal .statements]
  | simpleDeclaration : (∀ p ∈ front, p.Quiet d) → (∀ p ∈ back, p.Quiet d) → Production d .declaration
      (piecesForm front ++ .nonterminal .expression :: piecesForm back ++ [.terminal (.plain semi)])
  | forward : Signature d signature → Production d .declaration [.terminal (.forward member signature)]
  | subprogram : Signature d signature → isNaming name → Production d .declaration
      [.terminal (.header member signature intro),.nonterminal .declarations,.terminal .begin,
        .nonterminal .statements,.nonterminal .handlers,.terminal (.close name)]
  | noDeclarations : Production d .declarations []
  | moreDeclarations : Production d .declarations [.nonterminal .declaration,.nonterminal .declarations]

/-- Counters, the bodies owed so far, and whether an `END` or a member may come next. -/
structure Site extends Counters where
  owed : Nat
  fresh : Bool
  deriving DecidableEq, Repr

def Site.Allows (s : Site) : Piece → Prop
  | .close _ | .header _ _ _ | .forward _ _ => s.fresh = true
  | .begin => s.Nested ∨ s.fresh = true
  | _ => True

def Piece.owes : Piece → Nat
  | .header _ _ _ => 1
  | _ => 0

def Piece.leavesFresh : Piece → Bool
  | .plain s => s == semi
  | .close _ | .header _ _ _ | .forward _ _ => true
  | _ => false

structure Site.Step (d : SqlDialect) (s : Site) (p : Piece) (t : Site) : Prop where
  valid : p.Valid d
  allowed : s.Allows p
  moved : s.advance p = some t.toCounters
  owed : t.owed = s.owed + p.owes
  fresh : t.fresh = p.leavesFresh

abbrev Derives (keywords : List Text) := Grammar.Yields (Production (oracleLike keywords))
abbrev Site.Runs (keywords : List Text) := Grammar.Runs (Site.Step (oracleLike keywords))

def Nonterminal.pre : Nonterminal → Site → Prop
  | .expression, _ => True
  | .statement, s | .statements, s | .whens, s => s.Nested
  | .elsifs, s | .otherwise, s | .handlers, s => s.Nested ∧ s.fresh = true
  | .declaration, s | .declarations, s => s.fresh = true

/-- A declaration at depth zero settles the bodies it owes; below, they stay owed. -/
def Nonterminal.post : Nonterminal → Site → Site → Prop
  | .expression, s, t => t = { s with fresh := false }
  | .statement, s, t | .statements, s, t | .whens, s, t => t = { s with fresh := true }
  | .elsifs, s, t | .otherwise, s, t | .handlers, s, t => t = s
  | .declaration, s, t | .declarations, s, t => ∃ count, t = { s with
      pending := s.pending + if s.depth = 0 then 0 else count, owed := s.owed + count }

section
variable {keywords : List Text} {goal : Site → Prop} {rest : Form} {s : Site}

def Reads (keywords : List Text) (form : Form) (goal : Site → Prop) (s : Site) : Prop :=
  Grammar.wp (Site.Step (oracleLike keywords)) Nonterminal.pre Nonterminal.post form goal s

theorem reads_terminal (valid : p.Valid (oracleLike keywords)) (allowed : s.Allows p)
    (moved : s.advance p = some c) (later : Reads keywords rest goal ⟨c,s.owed + p.owes,p.leavesFresh⟩) :
    Reads keywords (.terminal p :: rest) goal s :=
  ⟨_,⟨valid,allowed,moved,rfl,rfl⟩,later⟩

theorem Piece.Quiet.leavesFresh {p : Piece} (quiet : p.Quiet (oracleLike keywords)) : p.leavesFresh = false := by
  cases p with
  | plain s =>
    refine beq_false_of_ne ?_
    rintro rfl
    cases quiet.2
  | group inner => rfl
  | _ => exact quiet.elim

theorem reads_tokens (quiet : ∀ p ∈ pieces, p.Quiet (oracleLike keywords)) (some : pieces ≠ [])
    (later : Reads keywords rest goal { s with fresh := false }) :
    Reads keywords (piecesForm pieces ++ rest) goal s := by
  induction pieces generalizing s with
  | nil => exact absurd rfl some
  | cons p pieces ih =>
    have first := quiet p (mem_cons_self ..)
    have after : Reads keywords (piecesForm pieces ++ rest) goal { s with fresh := p.leavesFresh } := by
      rw [first.leavesFresh]
      cases pieces with
      | nil => exact later
      | cons q pieces => exact ih (fun q member => quiet q (.tail _ member)) (cons_ne_nil _ _) later
    cases p with
    | plain x => exact reads_terminal first.1 trivial rfl after
    | group inner => exact reads_terminal first trivial rfl after
    | _ => exact first.elim

theorem reads_quiet (quiet : ∀ p ∈ pieces, p.Quiet (oracleLike keywords))
    (later : ∀ fresh, Reads keywords rest goal { s with fresh := fresh }) :
    Reads keywords (piecesForm pieces ++ rest) goal s := by
  cases pieces with
  | nil => exact later s.fresh
  | cons p pieces => exact reads_tokens quiet (cons_ne_nil _ _) (later false)

theorem reads_word (valid : (keyword w).Valid (oracleLike keywords))
    (later : ∀ fresh, Reads keywords rest goal { s with fresh := fresh }) :
    Reads keywords (.terminal (keyword w) :: rest) goal s :=
  reads_terminal valid trivial rfl (later _)

theorem reads_semi (later : Reads keywords rest goal { s with fresh := true }) :
    Reads keywords (.terminal (.plain semi) :: rest) goal s :=
  reads_terminal rfl trivial rfl later

theorem reads_opener (o : Opener) (later : Reads keywords rest goal { s with depth := s.depth + 1, fresh := false }) :
    Reads keywords (.terminal (.opener o) :: rest) goal s :=
  reads_terminal trivial trivial rfl later

theorem reads_close (named : isNaming name) (later : Reads keywords rest goal { s with fresh := true }) :
    Reads keywords (.terminal (.close name) :: rest) goal { s with depth := s.depth + 1, fresh := true } :=
  reads_terminal named rfl rfl later

theorem reads_begin (nested : s.Nested)
    (later : Reads keywords rest goal { s with depth := s.depth + 1, fresh := false }) :
    Reads keywords (.terminal .begin :: rest) goal s :=
  reads_terminal trivial (.inl nested) (congrArg some (Counters.openBody_nested nested)) later

theorem reads_expression (later : Reads keywords rest goal { s with fresh := false }) :
    Reads keywords (.nonterminal .expression :: rest) goal s := by
  refine ⟨trivial,?_⟩
  rintro t rfl
  exact later

theorem reads_statements (n : Nonterminal) (kind : n = .statement ∨ n = .statements ∨ n = .whens) (nested : s.Nested)
    (later : Reads keywords rest goal { s with fresh := true }) :
    Reads keywords (.nonterminal n :: rest) goal s := by
  rcases kind with rfl | rfl | rfl <;>
  · refine ⟨nested,?_⟩
    rintro t rfl
    exact later

theorem reads_optional (n : Nonterminal) (kind : n = .elsifs ∨ n = .otherwise ∨ n = .handlers) (nested : s.Nested)
    (later : Reads keywords rest goal { s with fresh := true }) :
    Reads keywords (.nonterminal n :: rest) goal { s with fresh := true } := by
  rcases kind with rfl | rfl | rfl <;>
  · refine ⟨⟨nested,rfl⟩,?_⟩
    rintro t rfl
    exact later

theorem nested_deeper (s : Site) (fresh : Bool) :
    Counters.Nested { s with depth := s.depth + 1, fresh := fresh : Site }.toCounters := .inl (succ_pos _)

theorem reads_loop (later : Reads keywords [] goal { s with fresh := true }) :
    Reads keywords [.terminal (.opener .loop),.nonterminal .statements,.terminal (.close (some (.word "loop".toList)))]
      goal s :=
  reads_opener .loop (reads_statements _ (.inr (.inl rfl)) (nested_deeper s _) (reads_close (isNaming_word _) later))

theorem reads_guard (valid : (keyword w).Valid (oracleLike keywords)) (nested : s.Nested)
    (later : Reads keywords rest goal { s with fresh := true }) :
    Reads keywords (.terminal (keyword w) :: .nonterminal .expression :: .terminal (keyword "then") ::
      .nonterminal .statements :: rest) goal s :=
  reads_word valid fun _ => reads_expression (reads_word rfl fun _ =>
    reads_statements _ (.inr (.inl rfl)) nested later)

theorem reads_simple (front : ∀ p ∈ before, p.Quiet (oracleLike keywords))
    (back : ∀ p ∈ after, p.Quiet (oracleLike keywords)) (holds : goal { s with fresh := true }) :
    Reads keywords (piecesForm before ++ .nonterminal .expression :: piecesForm after ++
      [.terminal (.plain semi)]) goal s := by
  rw [append_assoc]
  exact reads_quiet front fun _ => reads_expression (reads_quiet back fun _ => reads_semi holds)

theorem productions_respect : Grammar.Respects (Production (oracleLike keywords))
    (Site.Step (oracleLike keywords)) Nonterminal.pre Nonterminal.post := by
  intro n form s production holds
  change Reads keywords form (n.post s) s
  cases production with
  | @expression tokens quiet some =>
    rw [← append_nil (piecesForm tokens)]
    exact reads_tokens quiet some rfl
  | simple front back => exact reads_simple front back rfl
  | ifThen =>
    have deep := nested_deeper s
    exact reads_opener .ifThen (reads_expression (reads_word rfl fun _ =>
      reads_statements _ (.inr (.inl rfl)) (deep _) (reads_optional _ (.inl rfl) (deep true)
        (reads_optional _ (.inr (.inl rfl)) (deep true) (reads_close (isNaming_word _) rfl)))))
  | noElsif => rfl
  | elsif =>
    obtain ⟨c,owed,fresh⟩ := s
    obtain ⟨nested,rfl⟩ := holds
    exact reads_guard rfl nested (reads_optional .elsifs (.inl rfl) nested rfl)
  | noElse => rfl
  | otherwise =>
    obtain ⟨c,owed,fresh⟩ := s
    obtain ⟨nested,rfl⟩ := holds
    exact reads_word rfl fun _ => reads_statements _ (.inr (.inl rfl)) nested rfl
  | loop => exact reads_loop rfl
  | whileLoop => exact reads_word rfl fun _ => reads_expression (reads_loop rfl)
  | forRange quiet =>
    exact reads_word rfl fun _ => reads_quiet quiet fun _ => reads_expression
      (reads_terminal rfl trivial rfl (reads_expression (reads_loop rfl)))
  | forEach quiet =>
    exact reads_word rfl fun _ => reads_quiet quiet fun _ => reads_expression (reads_loop rfl)
  | caseWhen =>
    have deep := nested_deeper s
    exact reads_opener .case (reads_statements _ (.inr (.inr rfl)) (deep _)
      (reads_optional _ (.inr (.inl rfl)) (deep true) (reads_close (isNaming_word _) rfl)))
  | lastWhen => exact reads_guard rfl holds rfl
  | moreWhens => exact reads_guard rfl holds (reads_statements _ (.inr (.inr rfl)) holds rfl)
  | block quiet named =>
    have deep := nested_deeper s
    exact reads_quiet quiet fun _ => reads_begin holds (reads_statements _ (.inr (.inl rfl)) (deep _)
      (reads_optional _ (.inr (.inr rfl)) (deep true) (reads_close named rfl)))
  | noHandlers => rfl
  | handlers =>
    obtain ⟨c,owed,fresh⟩ := s
    obtain ⟨nested,rfl⟩ := holds
    exact reads_word rfl fun _ => reads_statements _ (.inr (.inr rfl)) nested rfl
  | lastStatement => exact reads_statements _ (.inl rfl) holds rfl
  | moreStatements => exact reads_statements _ (.inl rfl) holds (reads_statements _ (.inr (.inl rfl)) holds rfl)
  | simpleDeclaration front back =>
    obtain ⟨c,owed,fresh⟩ := s
    cases holds
    exact reads_simple front back ⟨0,by simp⟩
  | forward signature =>
    obtain ⟨c,owed,fresh⟩ := s
    cases holds
    exact reads_terminal signature rfl rfl ⟨0,by simp [Piece.owes,Piece.leavesFresh]⟩
  | subprogram signature named =>
    obtain ⟨⟨depth,pending,absorbed⟩,owed,fresh⟩ := s
    cases holds
    refine reads_terminal signature rfl rfl ⟨rfl,?_⟩
    rintro t ⟨count,rfl⟩
    cases depth with
    | zero =>
      -- The body settles the debt of its own header.
      refine reads_terminal trivial (.inr rfl) (congrArg some (Counters.openBody_owed pending absorbed)) ?_
      have deep : Counters.Nested ⟨1,pending,absorbed⟩ := .inl one_pos
      refine reads_statements _ (.inr (.inl rfl)) deep (reads_optional _ (.inr (.inr rfl)) deep ?_)
      exact reads_terminal named rfl rfl ⟨1 + count,by simp [Piece.owes,Piece.leavesFresh,add_assoc]⟩
    | succ depth =>
      refine reads_begin (.inl (succ_pos _)) ?_
      have deep : Counters.Nested ⟨depth + 1 + 1,pending + 1 + count,absorbed⟩ := .inl (succ_pos _)
      refine reads_statements _ (.inr (.inl rfl)) deep (reads_optional _ (.inr (.inr rfl)) deep ?_)
      exact reads_terminal named rfl rfl ⟨1 + count,by simp [Piece.owes,Piece.leavesFresh,add_assoc]⟩
  | noDeclarations => exact ⟨0,by simp⟩
  | moreDeclarations =>
    obtain ⟨⟨depth,pending,absorbed⟩,owed,fresh⟩ := s
    cases holds
    refine ⟨rfl,?_⟩
    rintro t ⟨first,rfl⟩
    refine ⟨rfl,?_⟩
    rintro t ⟨second,rfl⟩
    refine ⟨first + second,?_⟩
    split <;> simp [add_assoc]

end

def createWords (replace : Bool) : List Sig :=
  .word "create".toList :: if replace then [.word "or".toList,.word "replace".toList] else []

inductive Opening where
  | anonymous
  | declare
  | subprogram (replace : Bool) (member : Member) (signature : List Piece) (intro : Intro)
  | packageBody (replace : Bool) (signature : List Piece) (intro : Intro)
  deriving DecidableEq, Repr

def Opening.words : Opening → List Sig
  | .anonymous => [beginWord]
  | .declare => [.word "declare".toList]
  | .subprogram replace member _ _ => createWords replace ++ [.word member.word]
  | .packageBody replace _ _ => createWords replace ++ [.word "package".toList]

/-- What the scan reads before the declarations. -/
def Opening.prelude : Opening → List Piece
  | .anonymous | .declare => []
  | .subprogram _ _ signature intro => signature ++ [.plain (.word intro.word)]
  | .packageBody _ signature intro => keyword "body" :: signature ++ [.plain (.word intro.word)]

/-- The matched words include the unit's own `BEGIN`. -/
def Opening.opensBody : Opening → Bool
  | .anonymous => true
  | _ => false

def statementPart : Form := [.nonterminal .statements,.nonterminal .handlers]

/-- The declaration part of a unit and its own body. -/
inductive Opening.Parts (d : SqlDialect) : Opening → Form → Form → Prop where
  | anonymous : Parts d .anonymous [] statementPart
  | declare : Parts d .declare [.nonterminal .declarations] (.terminal .begin :: statementPart)
  | subprogram : (∀ p ∈ signature, p.Quiet d) → Parts d (.subprogram replace member signature intro)
      [.nonterminal .declarations] (.terminal .begin :: statementPart)
  | package : (∀ p ∈ signature, p.Quiet d) → Parts d (.packageBody replace signature intro)
      [.nonterminal .declarations] []
  | packageInit : (∀ p ∈ signature, p.Quiet d) → Parts d (.packageBody replace signature intro)
      [.nonterminal .declarations] (.terminal .begin :: statementPart)

variable {keywords : List Text} {opening : Opening} {declarations body : Form} {whole rest : List Sig}

/-- The first starter that matches leading words. -/
def starterOf (d : SqlDialect) (words : List (Text × α)) (start : α) : Option (BlockStarter × α) :=
  d.blockStarters.findSome? fun starter => (matchesBlockStarter starter words start).map (starter,·)

-- Splitting what follows the known words decides the length checks of the longer phrases.
theorem member_starter (keywords : List Text) (replace : Bool) (member : Member) (rest : List Sig) :
    View.matchedStarter (oracleLike keywords) (createWords replace ++ .word member.word :: rest) =
      some (createSubprogramStarter,rest) := by
  cases replace with
  | false =>
    change starterOf _ (_ :: _ :: View.leadingWords 10 rest) _ = _
    cases View.leadingWords 10 rest <;> cases member <;> rfl
  | true =>
    change starterOf _ (_ :: _ :: _ :: _ :: View.leadingWords 8 rest) _ = _
    cases View.leadingWords 8 rest <;> cases member <;> rfl

theorem package_starter (keywords : List Text) (replace : Bool) (rest : List Sig) :
    View.matchedStarter (oracleLike keywords) (createWords replace ++ .word "package".toList :: rest) =
      some (createCompoundStarter,rest) := by
  cases replace with
  | false =>
    change starterOf _ (_ :: _ :: View.leadingWords 10 rest) _ = _
    cases View.leadingWords 10 rest <;> rfl
  | true =>
    change starterOf _ (_ :: _ :: _ :: _ :: View.leadingWords 8 rest) _ = _
    cases View.leadingWords 8 rest <;> rfl

theorem Opening.starter (keywords : List Text) (opening : Opening) (rest : List Sig) :
    ∃ starter, View.matchedStarter (oracleLike keywords) (opening.words ++ rest) = some (starter,rest) ∧
      starter.kind = .structured ∧ starter.opensBody = opening.opensBody := by
  cases opening with
  | anonymous => exact ⟨beginStarter,rfl,rfl,rfl⟩
  | declare => exact ⟨declareStarter,rfl,rfl,rfl⟩
  | subprogram replace member signature intro =>
    refine ⟨createSubprogramStarter,?_,rfl,rfl⟩
    rw [Opening.words,append_assoc]
    exact member_starter keywords replace member rest
  | packageBody replace signature intro =>
    refine ⟨createCompoundStarter,?_,rfl,rfl⟩
    rw [Opening.words,append_assoc]
    exact package_starter keywords replace rest

theorem Piece.Quiet.valid {p : Piece} (quiet : p.Quiet (oracleLike keywords)) : p.Valid (oracleLike keywords) := by
  cases p with
  | plain s => exact quiet.1
  | group inner => exact quiet
  | _ => exact quiet.elim

theorem run_quiet (c : Counters) (quiet : ∀ p ∈ pieces, p.Quiet (oracleLike keywords)) : c.run pieces = some c := by
  induction pieces with
  | nil => rfl
  | cons p pieces ih =>
    have first := quiet p (mem_cons_self ..)
    have later := ih fun q member => quiet q (.tail _ member)
    cases p with
    | plain s => exact later
    | group inner => exact later
    | _ => exact first.elim

theorem intro_quiet (intro : Intro) : (Piece.plain (.word intro.word)).Quiet (oracleLike keywords) := by
  cases intro <;> exact ⟨rfl,rfl⟩

theorem Opening.Parts.prelude_quiet (parts : opening.Parts (oracleLike keywords) declarations body) :
    ∀ p ∈ opening.prelude, p.Quiet (oracleLike keywords) := by
  have closed {signature : List Piece} {intro : Intro} (quiet : ∀ p ∈ signature, p.Quiet (oracleLike keywords)) :
      ∀ p ∈ signature ++ [.plain (.word intro.word)], p.Quiet (oracleLike keywords) := by
    intro p member
    rcases mem_append.mp member with member | member
    · exact quiet p member
    · exact mem_singleton.mp member ▸ intro_quiet intro
  have named : (keyword "body").Quiet (oracleLike keywords) := ⟨rfl,rfl⟩
  cases parts with
  | anonymous => exact forall_mem_nil _
  | declare => exact forall_mem_nil _
  | subprogram quiet => exact closed quiet
  | package quiet => exact forall_mem_cons.mpr ⟨named,closed quiet⟩
  | packageInit quiet => exact forall_mem_cons.mpr ⟨named,closed quiet⟩

def Opening.counters (opening : Opening) : Counters := ⟨0,0,opening.opensBody⟩

theorem Opening.Parts.scan (parts : opening.Parts (oracleLike keywords) declarations body)
    (here : opening.counters.At (tokensOf opening.prelude ++ rest) whole) (clear : View.isCallSpec (oracleLike keywords) rest = false)
    (ended : Turn.Ends (View.structuredTurn (oracleLike keywords) whole) (opening.counters.state rest) e) :
    View.scanStatement (oracleLike keywords) whole (opening.words ++ (tokensOf opening.prelude ++ rest)) = e := by
  obtain ⟨starter,matched,kind,opens⟩ := opening.starter keywords (tokensOf opening.prelude ++ rest)
  have quiet := parts.prelude_quiet
  have path : Leads keywords whole
      (opening.counters.state (tokensOf opening.prelude ++ rest)) (opening.counters.state rest) :=
    run_reaches (fun p member => (quiet p member).valid) (run_quiet _ quiet) clear here
  have start : View.structuredStart starter (tokensOf opening.prelude ++ rest) =
      opening.counters.state (tokensOf opening.prelude ++ rest) := by
    rw [View.structuredStart,opens]
    rfl
  rw [View.scanStatement,matched]
  simp only [kind]
  exact View.scanStructured_eq (start ▸ ended.before path)

def Opening.site (opening : Opening) : Site := ⟨opening.counters,0,true⟩

theorem Opening.Parts.reads_declarations (parts : opening.Parts (oracleLike keywords) declarations body) :
    Reads keywords declarations (fun t => ∃ owed, t = ⟨opening.counters,owed,true⟩) opening.site := by
  have settled (other : opening.opensBody = false) :
      Reads keywords [.nonterminal .declarations] (fun t => ∃ owed, t = ⟨opening.counters,owed,true⟩) opening.site := by
    refine ⟨rfl,?_⟩
    rintro t ⟨count,rfl⟩
    exact ⟨0 + count,rfl⟩
  cases parts with
  | anonymous => exact ⟨0,rfl⟩
  | _ => exact settled rfl

structure Site.Last (body : Form) (t : Site) : Prop where
  depth : t.depth = 0
  pending : t.pending = 0
  absorbed : t.absorbed = !body.isEmpty
  fresh : t.fresh = true

theorem Opening.Parts.reads_body (parts : opening.Parts (oracleLike keywords) declarations body) (owed : Nat) :
    Reads keywords body (Site.Last body) ⟨opening.counters,owed,true⟩ := by
  have inside (body : Form) (some : body.isEmpty = false) (fresh : Bool) :
      Reads keywords statementPart (Site.Last body) ⟨⟨0,0,true⟩,owed,fresh⟩ := by
    have own : Counters.Nested ⟨0,0,true⟩ := .inr ⟨rfl,rfl⟩
    refine reads_statements _ (.inr (.inl rfl)) own (reads_optional .handlers (.inr (.inr rfl)) own ?_)
    exact ⟨rfl,rfl,by rw [some]; rfl,rfl⟩
  have absorb : Reads keywords (.terminal .begin :: statementPart) (Site.Last (.terminal .begin :: statementPart))
      ⟨⟨0,0,false⟩,owed,true⟩ := reads_terminal trivial (.inr rfl) rfl (inside _ rfl false)
  cases parts with
  | anonymous => exact inside _ rfl true
  | declare => exact absorb
  | subprogram quiet => exact absorb
  | package quiet => exact ⟨rfl,rfl,rfl,rfl⟩
  | packageInit quiet => exact absorb

theorem Opening.Parts.reads (parts : opening.Parts (oracleLike keywords) declarations body) :
    Reads keywords (declarations ++ body) (Site.Last body) opening.site := by
  rw [Reads,Grammar.wp_append]
  refine Grammar.wp_mono ?_ parts.reads_declarations
  rintro t ⟨owed,rfl⟩
  exact parts.reads_body owed

theorem runs_counters (runs : Site.Runs keywords s pieces t) :
    (∀ p ∈ pieces, p.Valid (oracleLike keywords)) ∧ s.toCounters.run pieces = some t.toCounters := by
  induction runs with
  | nil => exact ⟨forall_mem_nil _,rfl⟩
  | cons step _ ih =>
    refine ⟨forall_mem_cons.mpr ⟨step.valid,ih.1⟩,?_⟩
    rw [Counters.run_cons,step.moved]
    exact ih.2

theorem end_turn {c : Counters} (here : c.At (endWord :: rest) whole) (shallow : c.depth = 0) :
    View.structuredTurn (oracleLike keywords) whole (c.state (endWord :: rest)) =
      .done (View.finishStructured (oracleLike keywords) rest) := by
  rw [endWord,word_turn here (by decide) rfl (.inl rfl)]
  simp only [beq_iff_eq,shallow]
  rfl

structure PlsqlUnit (keywords : List Text) where
  opening : Opening
  declarations : Form
  body : Form
  parts : opening.Parts (oracleLike keywords) declarations body
  pieces : List Piece
  derived : Derives keywords (declarations ++ body) (piecesForm pieces)
  name : Option Sig
  named : isNaming name

def PlsqlUnit.view (unit : PlsqlUnit keywords) : List Sig :=
  unit.opening.words ++ (tokensOf unit.opening.prelude ++ (tokensOf unit.pieces ++ (endWord :: unit.name.toList ++ [semi])))

theorem PlsqlUnit.runs (unit : PlsqlUnit keywords) :
    ∃ t, Site.Runs keywords unit.opening.site unit.pieces t ∧ t.Last unit.body :=
  (Grammar.wp_terminals unit.pieces).mp (unit.derived.wp productions_respect unit.parts.reads)

/-- The counters stay in step with the nesting: a unit closes at its own last `END`. -/
theorem PlsqlUnit.scan (unit : PlsqlUnit keywords) (here : unit.opening.counters.At (unit.view ++ rest) whole) :
    View.scanStatement (oracleLike keywords) whole (unit.view ++ rest) =
      View.finishStructured (oracleLike keywords) (unit.name.toList ++ semi :: rest) := by
  obtain ⟨t,runs,last⟩ := unit.runs
  obtain ⟨valid,ran⟩ := runs_counters runs
  have regroup : unit.view ++ rest = unit.opening.words ++ (tokensOf unit.opening.prelude ++
      (tokensOf unit.pieces ++ endWord :: (unit.name.toList ++ semi :: rest))) := by simp [PlsqlUnit.view]
  rw [regroup] at here ⊢
  refine unit.parts.scan here.skip (tokensOf_not_callSpec valid end_not_callSpec) ?_
  exact ⟨_,run_reaches valid ran end_not_callSpec here.skip.skip,end_turn (run_at ran here.skip.skip) last.depth⟩

structure UnitPlace (keywords : List Text) (n : Nonterminal) where
  opening : Opening
  declarations : Form
  body : Form
  parts : opening.Parts (oracleLike keywords) declarations body
  before : List Piece
  after : List Piece
  derived : Derives keywords (declarations ++ body)
    (piecesForm before ++ .nonterminal n :: piecesForm after)
  name : Option Sig
  named : isNaming name

def UnitPlace.fill (place : UnitPlace keywords n) (inner : List Piece)
    (filled : Derives keywords [.nonterminal n] (piecesForm inner)) :
    PlsqlUnit keywords where
  opening := place.opening
  declarations := place.declarations
  body := place.body
  parts := place.parts
  pieces := place.before ++ inner ++ place.after
  derived := by
    have whole := place.derived.fill filled
    simpa [piecesForm] using whole
  name := place.name
  named := place.named

/-- The visible tokens of a unit with `inner` at the place, which need not be of the grammar. -/
def UnitPlace.view (place : UnitPlace keywords n) (inner : List Sig) : List Sig :=
  place.opening.words ++ (tokensOf place.opening.prelude ++ (tokensOf place.before ++ (inner ++
    (tokensOf place.after ++ (endWord :: place.name.toList ++ [semi])))))

variable (place : UnitPlace keywords n)

theorem UnitPlace.fill_view (inner : List Piece)
    (filled : Derives keywords [.nonterminal n] (piecesForm inner)) :
    (place.fill inner filled).view = place.view (tokensOf inner) := by
  simp [PlsqlUnit.view,UnitPlace.view,UnitPlace.fill]

theorem UnitPlace.runs :
    ∃ s, Site.Runs keywords place.opening.site place.before s ∧ n.pre s ∧
      ∀ t, n.post s t → ∃ last, Site.Runs keywords t place.after last ∧
        last.Last place.body := by
  have whole := place.derived.wp productions_respect place.parts.reads
  exact (Grammar.wp_place ..).mp whole

theorem UnitPlace.regroup (inner rest : List Sig) :
    place.view inner ++ rest = place.opening.words ++ (tokensOf place.opening.prelude ++ (tokensOf place.before ++
      (inner ++ (tokensOf place.after ++ endWord :: (place.name.toList ++ semi :: rest))))) := by simp [UnitPlace.view]

variable {place}

theorem UnitPlace.stands {inner : List Sig}
    (runs : Site.Runs keywords place.opening.site place.before s)
    (here : place.opening.counters.At (place.view inner ++ rest) whole) :
    s.toCounters.At (inner ++ (tokensOf place.after ++ endWord :: (place.name.toList ++ semi :: rest))) whole := by
  rw [place.regroup] at here
  exact run_at (runs_counters runs).2 here.skip.skip

theorem UnitPlace.scan {inner : List Sig}
    (runs : Site.Runs keywords place.opening.site place.before s)
    (clear : View.isCallSpec (oracleLike keywords)
      (inner ++ (tokensOf place.after ++ endWord :: (place.name.toList ++ semi :: rest))) = false)
    (here : place.opening.counters.At (place.view inner ++ rest) whole)
    (ended : Turn.Ends (View.structuredTurn (oracleLike keywords) whole)
      (s.toCounters.state (inner ++ (tokensOf place.after ++ endWord :: (place.name.toList ++ semi :: rest)))) e) :
    View.scanStatement (oracleLike keywords) whole (place.view inner ++ rest) = e := by
  obtain ⟨valid,ran⟩ := runs_counters runs
  rw [place.regroup] at here ⊢
  refine place.parts.scan here.skip (tokensOf_not_callSpec valid clear) (ended.before ?_)
  exact run_reaches valid ran clear here.skip.skip

end Reldex
