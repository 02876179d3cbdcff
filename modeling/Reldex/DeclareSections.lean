import Reldex.PlsqlUnits

/-! Declare sections inside a unit. A local subprogram declared below the top level leaves
the body it owes pending for the rest of the unit. Inside the unit's own body nothing reads
that debt; in the declaration part the unit's own `BEGIN` pays it and is then not taken for
the body of the unit, so that the last `END` closes that block and not the unit. -/
namespace Reldex
open Option Bool Nat
open List hiding span tail
variable {u : UnicodeTables} {keywords : List Text}

theorem Counters.openBody_absorbed {c : Counters} (absorbed : c.absorbed = true) : c.openBody.absorbed = true := by
  unfold openBody
  split
  · exact absorbed
  · split
    · rfl
    · exact absorbed

theorem Counters.openBody_depth {c : Counters} (absorbed : c.absorbed = true) : c.openBody.depth = c.depth + 1 := by
  unfold openBody
  split
  · rfl
  · simp [absorbed]

variable {c c' : Counters}

theorem advance_absorbed (moved : c.advance p = some c') (absorbed : c.absorbed = true) : c'.absorbed = true := by
  cases p with
  | begin => cases moved; exact Counters.openBody_absorbed absorbed
  | close name =>
    simp only [Counters.advance,ite_none_left_eq_some,some.injEq] at moved
    rw [← moved.2]
    exact absorbed
  | _ => cases moved; exact absorbed

theorem run_absorbed (ran : c.run pieces = some c') (absorbed : c.absorbed = true) : c'.absorbed = true := by
  induction pieces generalizing c with
  | nil => cases ran; exact absorbed
  | cons p pieces ih =>
    obtain ⟨next,moved,later⟩ := bind_eq_some_iff.mp ran
    exact ih later (advance_absorbed moved absorbed)

theorem advance_owing (moved : c.advance p = some c') (awaits : c'.absorbed = false) (debt : Nat) :
    Counters.advance { c with pending := c.pending + debt } p = some { c' with pending := c'.pending + debt } := by
  have awaits' : c.absorbed = false :=
    eq_false_iff.mpr fun absorbed => eq_false_iff.mp awaits (advance_absorbed moved absorbed)
  obtain ⟨depth,pending,absorbed⟩ := c
  cases awaits'
  cases p with
  | begin =>
    cases moved
    cases depth with
    | zero =>
      cases pending with
      | zero => cases awaits
      | succ pending =>
        have regroup : pending + 1 + debt = pending + debt + 1 := by omega
        simp only [Counters.advance,regroup,Counters.openBody_owed]
    | succ depth =>
      have nested (pending : Nat) : Counters.Nested ⟨depth + 1,pending,false⟩ := .inl (succ_pos _)
      simp only [Counters.advance,Counters.openBody_nested (nested _)]
  | close name =>
    simp only [Counters.advance,ite_none_left_eq_some,some.injEq] at moved ⊢
    obtain ⟨deep,rfl⟩ := moved
    exact ⟨deep,rfl⟩
  | header keyword signature intro =>
    cases moved
    simp only [Counters.advance,add_right_comm]
  | _ => cases moved; rfl

theorem run_owing (ran : c.run pieces = some c') (awaits : c'.absorbed = false) (debt : Nat) :
    Counters.run { c with pending := c.pending + debt } pieces = some { c' with pending := c'.pending + debt } := by
  induction pieces generalizing c with
  | nil => cases ran; rfl
  | cons p pieces ih =>
    obtain ⟨next,moved,later⟩ := bind_eq_some_iff.mp ran
    have awaits' : next.absorbed = false :=
      eq_false_iff.mpr fun absorbed => eq_false_iff.mp awaits (run_absorbed later absorbed)
    rw [Counters.run_cons,advance_owing moved awaits' debt]
    exact ih later

theorem advance_indebted {c c' owing : Counters} (moved : c.advance p = some c') (absorbed : c.absorbed = true)
    (absorbed' : owing.absorbed = true) (same : owing.depth = c.depth) :
    ∃ owing', owing.advance p = some owing' ∧ owing'.absorbed = true ∧ owing'.depth = c'.depth := by
  cases p with
  | begin =>
    cases moved
    exact ⟨_,rfl,Counters.openBody_absorbed absorbed',by
      rw [Counters.openBody_depth absorbed,Counters.openBody_depth absorbed',same]⟩
  | close name =>
    simp only [Counters.advance,ite_none_left_eq_some,some.injEq] at moved
    obtain ⟨deep,rfl⟩ := moved
    exact ⟨_,if_neg (same ▸ deep),absorbed',by rw [same]⟩
  | opener o => cases moved; exact ⟨_,rfl,absorbed',by rw [same]⟩
  | _ => cases moved; exact ⟨_,rfl,absorbed',same⟩

theorem run_indebted {c c' owing : Counters} (ran : c.run pieces = some c') (absorbed : c.absorbed = true)
    (absorbed' : owing.absorbed = true) (same : owing.depth = c.depth) :
    ∃ owing', owing.run pieces = some owing' ∧ owing'.depth = c'.depth := by
  induction pieces generalizing c owing with
  | nil => cases ran; exact ⟨owing,rfl,same⟩
  | cons p pieces ih =>
    obtain ⟨next,moved,later⟩ := bind_eq_some_iff.mp ran
    obtain ⟨middle,moved',absorbed',same⟩ := advance_indebted moved absorbed absorbed' same
    obtain ⟨last,ran,same⟩ := ih later (advance_absorbed moved absorbed) absorbed' same
    exact ⟨last,by rw [Counters.run_cons,moved']; exact ran,same⟩

theorem runs_owed (runs : Site.Runs keywords s pieces t) :
    t.owed = s.owed + (pieces.map Piece.owes).sum := by
  induction runs with
  | nil => rfl
  | cons step _ ih => rw [ih,step.owed,map_cons,sum_cons,add_assoc]

/-- The place is in the declaration part of the unit, or in its own body. -/
def UnitPlace.InDeclarations (place : UnitPlace keywords n) : Prop :=
  ∃ front back, place.after = front ++ back ∧ Derives keywords place.declarations
      (piecesForm place.before ++ .nonterminal n :: piecesForm front) ∧
    Derives keywords place.body (piecesForm back)

def UnitPlace.InBody (place : UnitPlace keywords n) : Prop :=
  ∃ front back, place.before = front ++ back ∧
    Derives keywords place.declarations (piecesForm front) ∧
    Derives keywords place.body
      (piecesForm back ++ .nonterminal n :: piecesForm place.after)

variable (place : UnitPlace keywords n)

theorem UnitPlace.located : place.InDeclarations ∨ place.InBody := by
  obtain ⟨x,y,whole,declared,body⟩ := place.derived.split
  rcases append_eq_append_iff.mp whole with ⟨inside,rfl,cut⟩ | ⟨inside,cut,rfl⟩
  · cases inside with
    | nil =>
      rw [nil_append] at cut
      subst cut
      exact .inr ⟨place.before,[],(append_nil _).symm,by simpa using declared,body⟩
    | cons s inside =>
      injection cut with first cut
      subst first
      obtain ⟨front,back,same,rfl,rfl⟩ := map_eq_append_iff.mp cut
      exact .inl ⟨front,back,same,declared,body⟩
  · obtain ⟨front,back,same,rfl,rfl⟩ := map_eq_append_iff.mp cut
    exact .inr ⟨front,back,same,declared,body⟩

theorem Opening.Parts.shape {opening : Opening} (parts : opening.Parts (oracleLike keywords) declarations body) :
    (opening.opensBody = true ∧ declarations = []) ∨
      (opening.opensBody = false ∧ (body = [] ∨ body = .terminal .begin :: statementPart)) := by
  cases parts with
  | anonymous => exact .inl ⟨rfl,rfl⟩
  | package => exact .inr ⟨rfl,.inl rfl⟩
  | _ => exact .inr ⟨rfl,.inr rfl⟩

theorem not_yields_nil (derived : Derives keywords [] (front ++ s :: back)) :
    False := by
  cases front <;> cases derived

theorem UnitPlace.body_runs (inside : place.InBody) :
    ∃ s, Site.Runs keywords place.opening.site place.before s ∧ n.pre s ∧
      s.absorbed = true ∧ ∀ t, n.post s t →
        ∃ last, Site.Runs keywords t place.after last ∧ last.Last place.body := by
  obtain ⟨front,back,same,declares,derived⟩ := inside
  obtain ⟨_,first,owed,rfl⟩ := (Grammar.wp_terminals front).mp
    (declares.wp productions_respect place.parts.reads_declarations)
  obtain ⟨s,second,pre,after⟩ := (Grammar.wp_place ..).mp (derived.wp productions_respect (place.parts.reads_body owed))
  refine ⟨s,same ▸ first.append second,pre,?_,after⟩
  have ran := (runs_counters second).2
  rcases place.parts.shape with ⟨opens,_⟩ | ⟨awaits,none | own⟩
  · exact run_absorbed ran opens
  · rw [none] at derived
    exact (not_yields_nil derived).elim
  · rw [own] at derived
    cases back with
    | nil => cases derived
    | cons p back =>
      cases derived
      have found : place.opening.counters.advance .begin = some ⟨0,0,true⟩ := by
        rw [Opening.counters,awaits]
        rfl
      rw [Counters.run_cons,found] at ran
      exact run_absorbed ran rfl

theorem UnitPlace.declaration_runs (inside : place.InDeclarations) : ∃ s front back, place.after = front ++ back ∧
      Site.Runs keywords place.opening.site place.before s ∧ n.pre s ∧
      Derives keywords place.body (piecesForm back) ∧ ∀ t, n.post s t →
        ∃ owed last, Site.Runs keywords t front ⟨⟨0,0,false⟩,owed,true⟩ ∧
          Site.Runs keywords ⟨⟨0,0,false⟩,owed,true⟩ back last ∧ last.Last place.body := by
  obtain ⟨front,back,same,declares,derived⟩ := inside
  have awaits : place.opening.counters = ⟨0,0,false⟩ := by
    rcases place.parts.shape with ⟨_,none⟩ | ⟨awaits,_⟩
    · rw [none] at declares
      exact (not_yields_nil declares).elim
    · rw [Opening.counters,awaits]
  obtain ⟨s,first,pre,after⟩ := (Grammar.wp_place ..).mp
    (declares.wp productions_respect place.parts.reads_declarations)
  refine ⟨s,front,back,same,first,pre,derived,fun t post => ?_⟩
  obtain ⟨_,second,owed,rfl⟩ := after t post
  obtain ⟨last,third,ends⟩ := (Grammar.wp_terminals back).mp
    (derived.wp productions_respect (place.parts.reads_body owed))
  rw [awaits] at second third
  exact ⟨owed,last,second,third,ends⟩

/-- A unit with a nested block, and the declarations to put before it. -/
structure DeclaredBlock (keywords : List Text) extends UnitPlace keywords .statement where
  label : List Piece
  quiet : ∀ p ∈ label, p.Quiet (oracleLike keywords)
  declared : List Piece
  declares : Derives keywords [.nonterminal .declaration,.nonterminal .declarations]
    (piecesForm declared)
  inner : List Piece
  states : Derives keywords statementPart (piecesForm inner)
  blockName : Option Sig
  blockNamed : isNaming blockName

namespace DeclaredBlock

def plain (block : DeclaredBlock keywords) : List Piece :=
  block.label ++ .begin :: (block.inner ++ [.close block.blockName])

def sectioned (block : DeclaredBlock keywords) : List Piece :=
  block.label ++ keyword "declare" :: (block.declared ++ .begin :: (block.inner ++ [.close block.blockName]))

variable (block : DeclaredBlock keywords)

theorem plain_derived :
    Derives keywords [.nonterminal .statement] (piecesForm block.plain) := by
  have tail := Grammar.Yields.keep (.terminal Piece.begin)
    (block.states.append (.refl (Production (oracleLike keywords)) [.terminal (Piece.close block.blockName)]))
  have whole := (Grammar.Yields.refl (Production (oracleLike keywords)) (piecesForm block.label)).append tail
  have derived := Grammar.Yields.expand (Production.block block.quiet block.blockNamed) whole .nil
  simpa [plain,piecesForm] using derived

def original (block : DeclaredBlock keywords) : PlsqlUnit keywords := block.fill block.plain block.plain_derived

def tokens (block : DeclaredBlock keywords) : List Sig := block.view (tokensOf block.sectioned)

def HasSubprogram (block : DeclaredBlock keywords) : Prop :=
  ∃ member signature intro, Piece.header member signature intro ∈ block.declared

/-- The debt of the section is paid by the unit's own `BEGIN`. -/
def Leaks (block : DeclaredBlock keywords) : Prop :=
  block.HasSubprogram ∧ block.InDeclarations ∧ block.body ≠ []

def debt (block : DeclaredBlock keywords) : Nat := (block.declared.map Piece.owes).sum

theorem debt_pos_iff : 0 < block.debt ↔ block.HasSubprogram := by
  rw [debt,List.sum_pos_iff_exists_pos_nat]
  constructor
  · rintro ⟨owes,member,owing⟩
    obtain ⟨p,listed,rfl⟩ := mem_map.mp member
    cases p with
    | header keyword signature intro => exact ⟨keyword,signature,intro,listed⟩
    | _ => cases owing
  · rintro ⟨keyword,signature,intro,member⟩
    exact ⟨1,mem_map.mpr ⟨_,member,rfl⟩,one_pos⟩

def leftover (block : DeclaredBlock keywords) (c : Counters) : Counters :=
  { c with pending := c.pending + if c.depth = 0 then 0 else block.debt }

theorem declared_runs (c : Counters) (owed : Nat) :
    ∃ t, Site.Runs keywords ⟨c,owed,true⟩ block.declared t ∧
      t.toCounters = block.leftover c := by
  have reads : Reads keywords [.nonterminal .declaration,.nonterminal .declarations]
      (Nonterminal.post .declarations ⟨c,owed,true⟩) ⟨c,owed,true⟩ :=
    productions_respect .declarations _ _ .moreDeclarations rfl
  obtain ⟨t,runs,count,same⟩ := (Grammar.wp_terminals block.declared).mp (block.declares.wp productions_respect reads)
  refine ⟨t,runs,?_⟩
  have counted := runs_owed runs
  rw [same] at counted ⊢
  simp only [add_left_cancel_iff] at counted
  rw [counted]
  rfl

theorem inner_runs (nested : c.Nested) (owed : Nat) :
    Site.Runs keywords ⟨c,owed,true⟩ block.inner ⟨c,owed,true⟩ := by
  have reads : Reads keywords statementPart (· = ⟨c,owed,true⟩) ⟨c,owed,true⟩ :=
    reads_statements _ (.inr (.inl rfl)) nested (reads_optional .handlers (.inr (.inr rfl)) nested rfl)
  obtain ⟨t,runs,rfl⟩ := (Grammar.wp_terminals block.inner).mp (block.states.wp productions_respect reads)
  exact runs

theorem sectioned_run (nested : c.Nested) :
    (∀ p ∈ block.sectioned, p.Valid (oracleLike keywords)) ∧ c.run block.sectioned = some (block.leftover c) := by
  obtain ⟨t,declares,left⟩ := block.declared_runs c 0
  obtain ⟨declaredValid,declaredRan⟩ := runs_counters declares
  have nested' : (block.leftover c).Nested := by
    rcases nested with deep | ⟨absorbed,settled⟩
    · exact .inl deep
    · by_cases shallow : c.depth = 0
      · exact .inr ⟨absorbed,by simp [leftover,shallow,settled]⟩
      · exact .inl (Nat.pos_of_ne_zero shallow)
  have deeper : Counters.Nested { block.leftover c with depth := c.depth + 1 } := .inl (succ_pos _)
  obtain ⟨innerValid,innerRan⟩ := runs_counters (block.inner_runs deeper 0)
  constructor
  · simp only [sectioned,forall_mem_append,forall_mem_cons]
    exact ⟨fun p member => (block.quiet p member).valid,rfl,declaredValid,trivial,innerValid,block.blockNamed,
      forall_mem_nil _⟩
  · rw [sectioned,Counters.run_append,run_quiet c block.quiet,bind_some,Counters.run_cons]
    change (c.run (block.declared ++ _)) = _
    rw [Counters.run_append,declaredRan,left,bind_some,Counters.run_cons]
    simp only [Counters.advance,Counters.openBody_nested nested',bind_some]
    change Counters.run { block.leftover c with depth := c.depth + 1 } _ = _
    rw [Counters.run_append,innerRan]
    rfl

theorem kept_run (kept : ¬ block.Leaks) :
    ∃ s last, Site.Runs keywords block.opening.site block.before s ∧ s.Nested ∧
      (∀ p ∈ block.after, p.Valid (oracleLike keywords)) ∧
      (block.leftover s.toCounters).run block.after = some last ∧ last.depth = 0 := by
  rcases block.located with inside | inside
  · obtain ⟨s,front,back,same,before,nested,derived,after⟩ := block.declaration_runs inside
    obtain ⟨owed,last,first,second,ends⟩ := after { s with fresh := true } rfl
    obtain ⟨valid,ran⟩ := runs_counters (first.append second)
    rw [← same] at valid ran
    by_cases owing : block.HasSubprogram
    · have none : block.body = [] := by
        by_contra own
        exact kept ⟨owing,inside,own⟩
      rw [none] at derived
      obtain rfl : back = [] := by
        cases back with
        | nil => rfl
        | cons p back => cases derived
      rw [append_nil] at same
      have carried := run_owing (runs_counters first).2 rfl (if s.depth = 0 then 0 else block.debt)
      rw [← same] at carried
      exact ⟨s,_,before,nested,valid,carried,rfl⟩
    · have free : block.debt = 0 := Nat.eq_zero_of_not_pos fun some => owing (block.debt_pos_iff.mp some)
      have unchanged : block.leftover s.toCounters = s.toCounters := by simp [leftover,free]
      exact ⟨s,last.toCounters,before,nested,valid,by rw [unchanged]; exact ran,ends.depth⟩
  · obtain ⟨s,before,nested,absorbed,after⟩ := block.body_runs inside
    obtain ⟨last,runs,ends⟩ := after { s with fresh := true } rfl
    obtain ⟨valid,ran⟩ := runs_counters runs
    obtain ⟨last',ran',same⟩ := @run_indebted _ _ _ (block.leftover s.toCounters) ran absorbed absorbed rfl
    exact ⟨s,last',before,nested,valid,ran',same.trans ends.depth⟩

theorem leaking_run (leaks : block.Leaks) :
    ∃ s last, Site.Runs keywords block.opening.site block.before s ∧ s.Nested ∧
      (∀ p ∈ block.after, p.Valid (oracleLike keywords)) ∧
      (block.leftover s.toCounters).run block.after = some last ∧ last.depth ≠ 0 := by
  obtain ⟨owing,inside,own⟩ := leaks
  obtain ⟨s,front,back,same,before,nested,derived,after⟩ := block.declaration_runs inside
  obtain ⟨owed,last,first,second,ends⟩ := after { s with fresh := true } rfl
  obtain ⟨valid,_⟩ := runs_counters (first.append second)
  rw [← same] at valid
  have frontRan := (runs_counters first).2
  -- The section stands inside a member, since the unit's own body is still to come.
  have deep : s.depth ≠ 0 := by
    rcases nested with deep | ⟨absorbed,_⟩
    · exact ne_of_gt deep
    · exact absurd (run_absorbed frontRan absorbed) false_ne_true
  obtain ⟨debt,owes⟩ := exists_eq_succ_of_ne_zero (ne_of_gt (block.debt_pos_iff.mpr owing))
  have carried : (block.leftover s.toCounters).run front = some ⟨0,debt + 1,false⟩ := by
    have carried := run_owing frontRan rfl block.debt
    rw [leftover,if_neg deep]
    rw [owes,succ_eq_add_one,zero_add] at carried
    rw [owes]
    exact carried
  rcases block.parts.shape with ⟨_,none⟩ | ⟨_,none | own⟩
  · obtain ⟨_,_,_,declares,_⟩ := inside
    rw [none] at declares
    exact (not_yields_nil declares).elim
  · exact absurd none own
  · rw [own] at derived
    cases back with
    | nil => cases derived
    | cons p back =>
      cases derived
      have backRan : Counters.run ⟨0,0,true⟩ back = some last.toCounters := (runs_counters second).2
      obtain ⟨last',ran,above⟩ := @run_deeper back 1 _ _ ⟨1,debt,false⟩ backRan one_pos (le_refl _)
      refine ⟨s,last',before,nested,valid,?_,by omega⟩
      rw [same,Counters.run_append,carried]
      exact ran

section
variable {whole rest : List Sig} (block : DeclaredBlock keywords)

theorem scan_after
    (before : Site.Runs keywords block.opening.site block.before s) (nested : s.Nested)
    (valid : ∀ p ∈ block.after, p.Valid (oracleLike keywords))
    (ran : (block.leftover s.toCounters).run block.after = some last)
    (here : block.opening.counters.At (block.tokens ++ rest) whole)
    (ended : last.At (endWord :: (block.name.toList ++ semi :: rest)) whole →
      Turn.Ends (View.structuredTurn (oracleLike keywords) whole)
        (last.state (endWord :: (block.name.toList ++ semi :: rest))) e) :
    View.scanStatement (oracleLike keywords) whole (block.tokens ++ rest) = e := by
  obtain ⟨sectionValid,sectionRan⟩ := block.sectioned_run nested
  have clear : View.isCallSpec (oracleLike keywords) (tokensOf block.after ++ endWord ::
    (block.name.toList ++ semi :: rest)) = false := tokensOf_not_callSpec valid end_not_callSpec
  have inside := UnitPlace.stands before here
  have later := run_at sectionRan inside
  refine UnitPlace.scan before (tokensOf_not_callSpec sectionValid clear) here ?_
  exact ((ended (run_at ran later)).before (run_reaches valid ran end_not_callSpec later)).before
    (run_reaches sectionValid sectionRan clear inside)

theorem scan_kept (kept : ¬ block.Leaks) (here : block.opening.counters.At (block.tokens ++ rest) whole) :
    View.scanStatement (oracleLike keywords) whole (block.tokens ++ rest) =
      View.finishStructured (oracleLike keywords) (block.name.toList ++ semi :: rest) := by
  obtain ⟨s,last,before,nested,valid,ran,bottom⟩ := block.kept_run kept
  exact block.scan_after before nested valid ran here fun stands => ⟨_,.refl,end_turn stands bottom⟩

theorem scan_leaks (leaks : block.Leaks) (here : block.opening.counters.At (block.tokens ++ rest) whole) :
    (View.scanStatement (oracleLike keywords) whole (block.tokens ++ rest)).closer <:+ rest := by
  obtain ⟨s,last,before,nested,valid,ran,deep⟩ := block.leaking_run leaks
  obtain ⟨e,ended⟩ := View.structured_ends (oracleLike keywords) whole
    (Counters.state { last with depth := last.depth - 1 } rest)
  rw [block.scan_after before nested valid ran here fun stands =>
    ended.before (.step (inner_end_turn stands deep) (close_reaches block.named))]
  exact (View.structured_within ended).closer

end

theorem view_last (inner : List Sig) : ∃ front, block.view inner = front ++ [semi] :=
  ⟨block.opening.words ++ (tokensOf block.opening.prelude ++ (tokensOf block.before ++ (inner ++
    (tokensOf block.after ++ endWord :: block.name.toList)))),by simp [UnitPlace.view]⟩

theorem tokens_front : ∃ w rest, block.tokens = .word w :: rest := by
  obtain ⟨w,rest,same⟩ := block.opening.words_front
  exact ⟨w,_,by rw [tokens,UnitPlace.view,same]; rfl⟩

end DeclaredBlock

structure Unchanged (text text' : Text) (span span' : StatementSpan) : Prop where
  kind : span'.kind = span.kind
  endedBy : span'.endedBy = span.endedBy
  terminated : span'.terminated = span.terminated
  content : span'.content text' = span.content text

section
variable {text text' : Text} {front front' tail : List Lexeme}

theorem Shown.unchanged (bound : found.1.length ≤ tail.countP (!isTrivial ·.kind))
    (shown : Shown text (front ++ tail) span found) (shown' : Shown text' (front' ++ tail) span' found) :
    Unchanged text text' span span' := by
  obtain ⟨done,own,more,cut,shows⟩ := shown
  rw [append_assoc] at cut
  have count : (own ++ more).countP (!isTrivial ·.kind) ≤ tail.countP (!isTrivial ·.kind) := by
    rw [← lexSigs_length (flat done),shows.start]
    exact bound
  obtain ⟨gap,rfl⟩ := suffix_of_count cut.symm shows.starts count
  have shows' := shown'.shows (by simp : front' ++ (gap ++ (own ++ more)) = front' ++ gap ++ own ++ more) shows.starts
    shows.closes (by rw [lexSigs_length,← lexSigs_length (flat done),shows.start])
    (by rw [lexSigs_length,← lexSigs_length (flat (done ++ own)),shows.closer])
  exact ⟨shows'.kind.trans shows.kind.symm,shows'.endedBy.trans shows.endedBy.symm,
    shows'.terminated.trans shows.terminated.symm,shows'.content.trans shows.content.symm⟩

theorem all_unchanged (bound : ∀ found ∈ statements, found.1.length ≤ tail.countP (!isTrivial ·.kind))
    (shown : Forall₂ (Shown text (front ++ tail)) spans statements)
    (shown' : Forall₂ (Shown text' (front' ++ tail)) spans' statements) :
    Forall₂ (Unchanged text text') spans spans' := by
  induction shown generalizing spans' with
  | nil => cases shown'; exact .nil
  | cons first _ ih =>
    cases shown' with
    | cons first' others =>
      obtain ⟨here,later⟩ := forall_mem_cons.mp bound
      exact .cons (first.unchanged here first') (ih later others)

end

structure DeclaredSource (u : UnicodeTables) (keywords : List Text) extends DeclaredBlock keywords where
  old : Source u keywords toDeclaredBlock.original.view
  new : Source u keywords toDeclaredBlock.tokens

namespace DeclaredSource

def oldText (pair : DeclaredSource u keywords) (more : Text) : Text := pair.old.text ++ '\n' :: more
def newText (pair : DeclaredSource u keywords) (more : Text) : Text := pair.new.text ++ '\n' :: more

/-- The unit comes back with its declare section, and what follows it unchanged. -/
def Kept (pair : DeclaredSource u keywords) (more : Text) : Prop :=
  ∃ span spans span' spans', splitStatements u (oracleLike keywords) (pair.oldText more) = some (span :: spans) ∧
    splitStatements u (oracleLike keywords) (pair.newText more) = some (span' :: spans') ∧
    Recovers (pair.newText more) span' pair.new.content ∧
    Forall₂ (Unchanged (pair.oldText more) (pair.newText more)) spans spans'

variable (pair : DeclaredSource u keywords)

theorem unquoted (short : len (pair.oldText more) < 2 ^ 31) (lexed : lexemes u (oracleLike keywords) more = some tail)
    (split : splitStatements u (oracleLike keywords) (pair.oldText more) = some (span :: spans))
    (recovered : Recovers (pair.oldText more) span pair.old.content) : pair.name ≠ some .unread := by
  intro quoted
  obtain ⟨_,_,front⟩ := pair.original.view_front
  have scanned : View.scanStatement (oracleLike keywords) (pair.original.view ++ lexSigs [] tail)
      (pair.original.view ++ lexSigs [] tail) =
        View.finishStructured (oracleLike keywords) (pair.name.toList ++ semi :: lexSigs [] tail) :=
    pair.original.scan (pair.old.stands lexed short _)
  rw [quoted] at scanned
  obtain ⟨_,_,_,again,_,⟨_,_,_,_,shows⟩,_⟩ := pair.old.document_shown front lexed scanned
  cases split.symm.trans again
  exact absurd (shows.terminated.symm.trans recovered.terminated) false_ne_true

theorem not_recovered (short : len (pair.newText more) < 2 ^ 31) (leaks : pair.Leaks)
    (lexed : lexemes u (oracleLike keywords) more = some tail)
    (split : splitStatements u (oracleLike keywords) (pair.newText more) = some (span :: spans)) :
    ¬ Recovers (pair.newText more) span pair.new.content := by
  intro recovered
  obtain ⟨_,_,front⟩ := pair.tokens_front
  obtain ⟨_,_,_,again,_,first,_⟩ := pair.new.document_shown front lexed rfl
  cases split.symm.trans again
  exact pair.new.content_ne rfl (lineBreak_count tail) (pair.scan_leaks leaks (pair.new.stands lexed short _)) first recovered.content

theorem kept (short : len (pair.oldText more) < 2 ^ 31) (short' : len (pair.newText more) < 2 ^ 31) (safe : ¬ pair.Leaks) (unquoted : pair.name ≠ some .unread)
    (lexed : lexemes u (oracleLike keywords) more = some tail) : pair.Kept more := by
  have finished : View.finishStructured (oracleLike keywords) (pair.name.toList ++ semi :: lexSigs [] tail) = _ :=
    finish_unquoted pair.named unquoted (lexSigs [] tail)
  obtain ⟨_,_,front⟩ := pair.original.view_front
  obtain ⟨_,_,front'⟩ := pair.tokens_front
  obtain ⟨span,spans,statements,split,splits,_,others⟩ := pair.old.document_shown front lexed
    ((pair.original.scan (pair.old.stands lexed short _)).trans finished)
  obtain ⟨span',spans',statements',split',splits',first',others'⟩ := pair.new.document_shown front' lexed
    ((pair.scan_kept safe (pair.new.stands lexed short' _)).trans finished)
  have inside := View.finish_next_suffix (d := oracleLike keywords) (semi :: lexSigs [] tail) (lexSigs [] tail) .block
  have alike : View.Alike (lexSigs [] tail) (pair.original.view ++ lexSigs [] tail) (pair.tokens ++ lexSigs [] tail) := by
    obtain ⟨before,same⟩ := pair.view_last (tokensOf pair.plain)
    obtain ⟨before',same'⟩ := pair.view_last (tokensOf pair.sectioned)
    rw [DeclaredBlock.original,UnitPlace.fill_view,same,DeclaredBlock.tokens,same',append_assoc,append_assoc]
    exact View.alike_after (s := semi) rfl _ _ _
  cases (alike.splits inside splits).unique splits'
  have bound : ∀ found ∈ statements, found.1.length ≤ tail.countP (!isTrivial ·.kind) := by
    intro found member
    rw [← lexSigs_length []]
    exact ((splits.suffix found member).trans inside).length_le
  have shown : Forall₂ (Shown (pair.oldText more) ((pair.old.lexemes ++ [semiLexeme,lineBreak .normal]) ++ tail))
      spans statements := by
    rw [append_assoc]
    exact others
  have shown' : Forall₂ (Shown (pair.newText more) ((pair.new.lexemes ++ [semiLexeme,lineBreak .normal]) ++ tail))
      spans' statements := by
    rw [append_assoc]
    exact others'
  exact ⟨span,spans,span',spans',split,split',
    pair.new.recovered (nil_append _).symm (lineBreak_count tail) first',all_unchanged bound shown shown'⟩

end DeclaredSource

/-- A declare section before a nested block of a unit that is recovered keeps the boundary of
the unit and what follows it, if and only if it does not declare a subprogram with its body
inside a member of a unit that has a body of its own. Both texts are short enough for the scan's
counters. -/
theorem declare_section_keeps_unit_iff (pair : DeclaredSource u keywords) (more : Text)
    (short : len (pair.oldText more) < 2 ^ 31) (short' : len (pair.newText more) < 2 ^ 31)
    (recovered : ∃ span spans, splitStatements u (oracleLike keywords) (pair.oldText more) = some (span :: spans) ∧
      Recovers (pair.oldText more) span pair.old.content) :
    pair.Kept more ↔ ¬ pair.Leaks := by
  obtain ⟨tail,lexed⟩ := @lexemes_total u _ (oracleLike_delimiters keywords) more
  constructor
  · rintro ⟨_,_,_,_,_,split,back,_⟩ leaks
    exact pair.not_recovered short' leaks lexed split back
  · obtain ⟨_,_,split,recovered⟩ := recovered
    exact fun safe => pair.kept short short' safe (pair.unquoted short lexed split recovered) lexed

theorem int_declaration : Grammar.Yields (Production (oracleLike [])) [.nonterminal .declaration,.nonterminal .declarations]
    (piecesForm [keyword "x",keyword "int",.plain semi]) := by
  have quiet (w : String) (word : Sig.quiet (oracleLike []) (.word w.toList) = true) :
      ∀ p ∈ [keyword w], p.Quiet (oracleLike []) := forall_mem_singleton.mpr ⟨word,rfl⟩
  have type : Production (oracleLike []) .expression (piecesForm [keyword "int"]) :=
    .expression (quiet "int" rfl) (cons_ne_nil _ _)
  have simple : Production (oracleLike []) .declaration
      [.terminal (keyword "x"),.nonterminal .expression,.terminal (.plain semi)] :=
    @Production.simpleDeclaration _ [keyword "x"] [] (quiet "x" rfl) (forall_mem_nil _)
  exact .expand simple (.keep (.terminal (keyword "x")) (.expand type (.refl _ _) (.refl _ [.terminal (Piece.plain semi)])))
    (.expand .noDeclarations .nil .nil)

/-- `BEGIN BEGIN NULL; END; END;` with a declaration for its inner block. -/
def innerDeclaration : DeclaredSource asciiTables [] where
  opening := .anonymous
  declarations := []
  body := statementPart
  parts := anonymous_parts
  before := []
  after := []
  derived := by
    have unit := Grammar.Yields.expand (@Production.lastStatement (oracleLike [])) (.refl _ _)
      (.expand .noHandlers .nil .nil)
    exact unit
  name := none
  named := isNaming_none
  label := []
  quiet := forall_mem_nil _
  declared := [keyword "x",keyword "int",.plain semi]
  declares := int_declaration
  inner := [keyword "null",.plain semi]
  states := null_body
  blockName := none
  blockNamed := isNaming_none
  old := {
    lexemes := [wordLexeme "BEGIN",blankLexeme,wordLexeme "BEGIN",blankLexeme,wordLexeme "NULL",semiLexeme,blankLexeme,
      wordLexeme "END",semiLexeme,blankLexeme,wordLexeme "END"]
    lexed := by decide +kernel
    starts := by rintro l ⟨⟩; rfl
    viewed := by decide +kernel }
  new := {
    lexemes := [wordLexeme "BEGIN",blankLexeme,wordLexeme "DECLARE",blankLexeme,wordLexeme "x",blankLexeme,
      wordLexeme "INT",semiLexeme,blankLexeme,wordLexeme "BEGIN",blankLexeme,wordLexeme "NULL",semiLexeme,blankLexeme,
      wordLexeme "END",semiLexeme,blankLexeme,wordLexeme "END"]
    lexed := by decide +kernel
    starts := by rintro l ⟨⟩; rfl
    viewed := by decide +kernel }

theorem inner_declaration_kept : innerDeclaration.newText "SELECT 1;".toList =
        "BEGIN DECLARE x INT; BEGIN NULL; END; END;\nSELECT 1;".toList ∧
      innerDeclaration.Kept "SELECT 1;".toList := by
  have split : splitStatements asciiTables (oracleLike []) (innerDeclaration.oldText "SELECT 1;".toList) =
      some [⟨0,26,27,1,1,.block,.inferredBlockEnd,true⟩,⟨28,36,37,2,1,.plain,.terminator,true⟩] := by decide +kernel
  have safe : ¬ innerDeclaration.Leaks := by
    rintro ⟨⟨member,signature,intro,listed⟩,_⟩
    simp [innerDeclaration,keyword] at listed
  refine ⟨by decide +kernel,(declare_section_keeps_unit_iff innerDeclaration _ (by decide +kernel)
    (by decide +kernel) ⟨_,_,split,rfl,rfl,?_⟩).mpr safe⟩
  decide +kernel

/-- The `BEGIN` of the package pays the debt of `q`, and the package swallows what follows. -/
theorem member_section_runs_on : splitStatements asciiTables (oracleLike [])
      "CREATE PACKAGE BODY p IS PROCEDURE a IS BEGIN BEGIN q; END; END a; BEGIN NULL; END p;\nSELECT 1;".toList =
        some [⟨0,84,85,1,1,.block,.inferredBlockEnd,true⟩,⟨86,94,95,2,1,.plain,.terminator,true⟩] ∧
    splitStatements asciiTables (oracleLike []) ("CREATE PACKAGE BODY p IS PROCEDURE a IS BEGIN DECLARE PROCEDURE q IS " ++
      "BEGIN NULL; END; BEGIN q; END; END a; BEGIN NULL; END p;\nSELECT 1;").toList =
        some [⟨0,135,135,1,1,.block,.endOfInput,false⟩] := by
  constructor <;> decide +kernel

end Reldex
