import Reldex.SplitterDocuments
import Reldex.SplitterContext
import Reldex.PlsqlGrammar

/-! Scripts of PL/SQL units. A script is units and lone `/` lines joined by line breaks;
each unit comes back as one block exactly when its last `END` is not followed by a quoted
name. -/
namespace Reldex
open List hiding span tail
variable {u : UnicodeTables} {keywords : List Text}

def semiLexeme : Lexeme := ⟨.operator,[';'],.normal,.normal⟩
def slashLexeme : Lexeme := ⟨.operator,['/'],.normal,.normal⟩

structure Source (u : UnicodeTables) (keywords : List Text) (view : List Sig) where
  lexemes : List Lexeme
  lexed : lexText u (oracleLike keywords) .normal (flat lexemes ++ [';']) = some (lexemes ++ [semiLexeme],.normal)
  starts : Visible lexemes
  viewed : lexSigs [] (lexemes ++ [semiLexeme]) = view

/-- A span that returns a block: it is finished and has the text of the block. -/
structure Recovers (text : Text) (span : StatementSpan) (content : Text) : Prop where
  kind : span.kind = .block
  terminated : span.terminated = true
  content : span.content text = some content

theorem view_le_len (lexed : lexemes u (oracleLike keywords) text = some ls) : (lexSigs [] ls).length ≤ len text := by
  have counted (some : ∀ l ∈ ls, l.text ≠ []) : ls.length ≤ len (flat ls) := by
    clear lexed
    induction ls with
    | nil => exact Nat.le_refl _
    | cons l ls ih =>
      obtain ⟨first,some⟩ := forall_mem_cons.mp some
      obtain ⟨c,cs,same⟩ := exists_cons_of_ne_nil first
      have size := c.utf8Size_pos
      have later := ih some
      rw [flat_cons,len_append,same,len_cons,length_cons]
      omega
  obtain ⟨_,lexing⟩ := lexemes_lexing lexed
  rw [lexSigs_length,← lexing.flat]
  exact countP_le_length.trans (counted (lexemes_nonempty (oracleLike_delimiters keywords) lexed))

namespace Source
variable {view : List Sig}

def content (source : Source u keywords view) : Text := flat source.lexemes
def text (source : Source u keywords view) : Text := source.content ++ [';']

variable (source : Source u keywords view)

theorem count : source.lexemes.countP (!isTrivial ·.kind) + 1 = view.length := by
  have same := congrArg length source.viewed
  rw [lexSigs_length,countP_append] at same
  exact same

theorem visible (rest : List Lexeme) : Visible (source.lexemes ++ semiLexeme :: rest) := by
  have starts := source.starts
  cases same : source.lexemes with
  | nil => rintro l ⟨⟩; rfl
  | cons l ls => rw [same] at starts; exact starts

theorem shows {document : Text} (source : Source u keywords view) (whole : ls = done ++ (source.lexemes ++ semiLexeme :: rest))
    (count : rest.countP (!isTrivial ·.kind) = later.length) (closer : e.closer = semi :: later)
    (shown : Shown document ls span (view ++ later,e)) :
    Shows document done source.lexemes (semiLexeme :: rest) span (view ++ later,e) := by
  refine shown.shows (by simpa using whole) (source.visible rest) (by rintro l ⟨⟩; rfl) ?_ ?_
  · rw [lexSigs_length,countP_append,countP_cons,count,length_append,← source.count]
    simp [semiLexeme,isTrivial]
    omega
  · rw [lexSigs_length,countP_cons,count,closer]
    simp [semiLexeme,isTrivial]

theorem recovered (whole : ls = done ++ (source.lexemes ++ semiLexeme :: rest))
    (count : rest.countP (!isTrivial ·.kind) = later.length)
    (shown : Shown document ls span (view ++ later,
      View.finishWithMaybeSlash (oracleLike keywords) (semi :: later) later .block)) :
    Recovers document span source.content := by
  have shows := source.shows whole count (View.finish_closer ..) shown
  refine ⟨shows.kind.trans ?_,shows.terminated.trans ?_,shows.content.trans ?_⟩ <;>
  · unfold View.finishWithMaybeSlash
    split <;> rfl

theorem content_ne (whole : ls = source.lexemes ++ semiLexeme :: rest)
    (count : rest.countP (!isTrivial ·.kind) = later.length) (beyond : e.closer <:+ later)
    (shown : Shown document ls span (view ++ later,e)) : span.content document ≠ some source.content := by
  obtain ⟨done,own,more,cut,shows⟩ := shown
  have all : (own ++ more).countP (!isTrivial ·.kind) =
      (source.lexemes ++ semiLexeme :: rest).countP (!isTrivial ·.kind) := by
    rw [← lexSigs_length (flat done),shows.start,length_append,← source.count,← count,countP_append,countP_cons]
    simp [semiLexeme,isTrivial]
    omega
  rw [whole,append_assoc] at cut
  obtain ⟨rfl,cut⟩ := @cut_unique done (own ++ more) [] _ cut.symm shows.starts (source.visible rest) all
  have fewer : more.countP (!isTrivial ·.kind) ≤ rest.countP (!isTrivial ·.kind) := by
    rw [← lexSigs_length (flat ([] ++ own)),shows.closer,count]
    exact beyond.length_le
  have regroup : own ++ more = (source.lexemes ++ [semiLexeme]) ++ rest := by simpa using cut.symm
  obtain ⟨extra,rfl⟩ := suffix_of_count regroup shows.closes fewer
  rw [← append_assoc,append_cancel_right_eq] at regroup
  have longer := len_trimEnd (c := ';') (by decide) source.content (flat extra)
  have shorter := len_trimEnd_le (source.content ++ ';' :: flat extra)
  have shape : flat own = source.content ++ ';' :: flat extra := by
    rw [regroup]
    simp [content,semiLexeme]
  rw [shows.content,shape]
  intro same
  have size := congrArg len (Option.some.inj same)
  rw [len_append] at longer
  have one : 0 < len [';'] := by decide
  split at size <;> omega

theorem document (lexed : Reldex.lexemes u (oracleLike keywords) more = some tail) :
    Reldex.lexemes u (oracleLike keywords) (source.text ++ '\n' :: more) =
        some (source.lexemes ++ semiLexeme :: lineBreak .normal :: tail) ∧
      lexSigs [] (source.lexemes ++ semiLexeme :: lineBreak .normal :: tail) = view ++ lexSigs [] tail := by
  have regroup : source.lexemes ++ semiLexeme :: lineBreak .normal :: tail =
    (source.lexemes ++ [semiLexeme]) ++ lineBreak .normal :: tail := by simp
  rw [regroup,lexSigs_lines,source.viewed]
  exact ⟨lexemes_lines source.lexed lexed,rfl⟩

theorem stands (lexed : Reldex.lexemes u (oracleLike keywords) more = some tail)
    (short : len (source.text ++ '\n' :: more) < 2 ^ 31) (absorbed : Bool) :
    Counters.At ⟨0,0,absorbed⟩ (view ++ lexSigs [] tail) (view ++ lexSigs [] tail) := by
  obtain ⟨whole,viewed⟩ := source.document lexed
  exact .start suffix_rfl (viewed ▸ Nat.lt_of_le_of_lt (view_le_len whole) short) absorbed

theorem document_shown (front : view = .word w :: rest)
    (lexed : Reldex.lexemes u (oracleLike keywords) more = some tail)
    (scanned : View.scanStatement (oracleLike keywords) (view ++ lexSigs [] tail) (view ++ lexSigs [] tail) = e) :
    ∃ span spans statements,
      splitStatements u (oracleLike keywords) (source.text ++ '\n' :: more) = some (span :: spans) ∧
      View.Splits (oracleLike keywords) (view ++ lexSigs [] tail) e.next statements ∧
      Shown (source.text ++ '\n' :: more) (source.lexemes ++ semiLexeme :: lineBreak .normal :: tail) span
        (view ++ lexSigs [] tail,e) ∧
      Forall₂ (Shown (source.text ++ '\n' :: more) (source.lexemes ++ semiLexeme :: lineBreak .normal :: tail))
        spans statements := by
  obtain ⟨whole,viewed⟩ := source.document lexed
  have visible : lexSigs [] (source.lexemes ++ semiLexeme :: lineBreak .normal :: tail) =
      .word w :: (rest ++ lexSigs [] tail) := by rw [viewed,front,cons_append]
  rw [← viewed] at scanned ⊢
  exact first_shown whole visible scanned

end Source

theorem lineBreak_count (tail : List Lexeme) :
    (lineBreak .normal :: tail).countP (!isTrivial ·.kind) = (lexSigs [] tail).length := by
  rw [lexSigs_length]
  exact countP_cons_of_neg (by simp [lineBreak,isTrivial])

structure SourceUnit (u : UnicodeTables) (keywords : List Text) extends PlsqlUnit keywords where
  source : Source u keywords toPlsqlUnit.view

inductive ScriptPart (u : UnicodeTables) (keywords : List Text) where
  | slash
  | block (unit : SourceUnit u keywords)

namespace ScriptPart

def text : ScriptPart u keywords → Text
  | .slash => ['/']
  | .block unit => unit.source.text

def lexemes : ScriptPart u keywords → List Lexeme
  | .slash => [slashLexeme]
  | .block unit => unit.source.lexemes ++ [semiLexeme]

def view : ScriptPart u keywords → List Sig
  | .slash => [.operator ['/'] true]
  | .block unit => unit.view

theorem lexed (part : ScriptPart u keywords) :
    lexText u (oracleLike keywords) .normal part.text = some (part.lexemes,.normal) := by
  cases part with
  | slash =>
    have letter : u.isAlphabetic '/' = false := u.alphabetic_ascii '/' (by decide)
    have token : nextToken u (oracleLike keywords) .normal true ['/'] = if u.isAlphabetic '/' then
        nextTokenWord u (oracleLike keywords) ['/'] else ⟨.operator,.normal,[],false⟩ := rfl
    have block : lexText u (oracleLike keywords) .normal ['/'] =
      lexFrom u (oracleLike keywords) 2 .normal true ['/'] := rfl
    rw [letter] at token
    rw [ScriptPart.text,block,lexFrom,token]
    rfl
  | block unit => exact unit.source.lexed

theorem viewed (part : ScriptPart u keywords) : lexSigs [] part.lexemes = part.view := by
  cases part with
  | slash => rfl
  | block unit => exact unit.source.viewed

end ScriptPart

def script (parts : List (ScriptPart u keywords)) : Text := intercalate ['\n'] (parts.map ScriptPart.text)

def scriptLexemes : List (ScriptPart u keywords) → List Lexeme
  | [] => []
  | part :: rest => part.lexemes ++ if rest.isEmpty then [] else lineBreak .normal :: scriptLexemes rest

def afterPart (rest : List (ScriptPart u keywords)) : List Lexeme :=
  if rest.isEmpty then [] else lineBreak .normal :: scriptLexemes rest

def scriptView (parts : List (ScriptPart u keywords)) : List Sig := parts.flatMap ScriptPart.view

variable (parts : List (ScriptPart u keywords))

theorem script_lexed : lexText u (oracleLike keywords) .normal (script parts) = some (scriptLexemes parts,.normal) := by
  induction parts with
  | nil => rfl
  | cons part rest ih =>
    cases rest with
    | nil => simpa [script,scriptLexemes,intercalate] using part.lexed
    | cons next rest =>
      have joined : script (part :: next :: rest) = part.text ++ '\n' :: script (next :: rest) := by
        simp [script,intercalate]
      rw [joined,lexText_lines part.lexed,ih]
      rfl

theorem script_viewed : lexSigs [] (scriptLexemes parts) = scriptView parts := by
  induction parts with
  | nil => rfl
  | cons part rest ih =>
    cases rest with
    | nil => simpa [scriptLexemes,scriptView] using part.viewed
    | cons next rest =>
      have joined : scriptLexemes (part :: next :: rest) =
        part.lexemes ++ lineBreak .normal :: scriptLexemes (next :: rest) := rfl
      rw [joined,lexSigs_lines,part.viewed,ih]
      rfl

def SourceUnit.QuotedName (unit : SourceUnit u keywords) : Prop := unit.name = some .unread

instance (unit : SourceUnit u keywords) : Decidable unit.QuotedName :=
  inferInstanceAs (Decidable (unit.name = some .unread))

def units : List (ScriptPart u keywords) → List (SourceUnit u keywords)
  | [] => []
  | .slash :: rest => units rest
  | .block unit :: rest => unit :: units rest

/-- The statements of the view of a script. A quoted name makes its unit the last one. -/
def scriptStatements : List (ScriptPart u keywords) → List (List Sig × View.Ending)
  | [] => []
  | .slash :: rest => scriptStatements rest
  | .block unit :: rest => (unit.view ++ scriptView rest,
      View.finishStructured (oracleLike keywords) (unit.name.toList ++ semi :: scriptView rest)) ::
        if unit.QuotedName then [] else scriptStatements rest

theorem finish_quoted (rest : List Sig) : View.finishStructured (oracleLike keywords) (.unread :: rest) =
    View.ranToEof .block := rfl

theorem finish_unquoted (naming : isNaming name) (unquoted : name ≠ some .unread) (rest : List Sig) :
    View.finishStructured (oracleLike keywords) (name.toList ++ semi :: rest) =
      View.finishWithMaybeSlash (oracleLike keywords) (semi :: rest) rest .block := by
  cases name with
  | none => rfl
  | some s =>
    cases s with
    | word w => rfl
    | unread => exact absurd rfl unquoted
    | _ => exact absurd (naming _ rfl) (by simp [Sig.isName])

theorem Opening.words_front (opening : Opening) : ∃ w rest, opening.words = .word w :: rest := by
  cases opening <;> exact ⟨_,_,rfl⟩

theorem PlsqlUnit.view_front (unit : PlsqlUnit keywords) : ∃ w rest, unit.view = .word w :: rest := by
  obtain ⟨w,rest,same⟩ := unit.opening.words_front
  exact ⟨w,_,by rw [PlsqlUnit.view,same]; rfl⟩

variable (rest : List (ScriptPart u keywords))

/-- After the terminator of a unit the split goes on with the next unit, past a `/` line. -/
theorem after_unit (later : View.Splits (oracleLike keywords) whole (scriptView rest) statements) (closer : List Sig) :
    View.Splits (oracleLike keywords) whole
      (View.finishWithMaybeSlash (oracleLike keywords) closer (scriptView rest) .block).next statements := by
  cases rest with
  | nil => exact later
  | cons part rest =>
    cases part with
    | slash =>
      cases later with
      | idle _ later => exact later
      | statement real _ _ => cases real
    | block unit =>
      obtain ⟨w,more,front⟩ := unit.view_front
      have visible : scriptView (.block unit :: rest) = .word w :: (more ++ scriptView rest) := by
        rw [scriptView,flatMap_cons,ScriptPart.view,front]
        rfl
      rw [visible] at later ⊢
      exact later

theorem script_splits (short : whole.length < 2 ^ 31) (tail : scriptView parts <:+ whole) :
    View.Splits (oracleLike keywords) whole (scriptView parts) (scriptStatements parts) := by
  induction parts with
  | nil => exact .stop
  | cons part rest ih =>
    have later := ih ((suffix_append ..).trans tail)
    cases part with
    | slash => exact .idle rfl later
    | block unit =>
      obtain ⟨w,more,front⟩ := unit.view_front
      have scanned : View.scanStatement (oracleLike keywords) whole (unit.view ++ scriptView rest) =
        View.finishStructured (oracleLike keywords) (unit.name.toList ++ semi :: scriptView rest) :=
        unit.scan (.start tail short _)
      have visible : unit.view ++ scriptView rest = .word w :: (more ++ scriptView rest) := by
        rw [front,cons_append]
      change View.Splits _ _ (unit.view ++ scriptView rest) _
      rw [visible] at scanned
      rw [scriptStatements,visible]
      refine .statement rfl scanned ?_
      by_cases quoted : unit.QuotedName
      · rw [if_pos quoted,quoted]
        exact .stop
      · rw [if_neg quoted,finish_unquoted unit.named quoted]
        exact after_unit rest later _

theorem afterPart_count : (afterPart rest).countP (!isTrivial ·.kind) = (scriptView rest).length := by
  rw [← script_viewed]
  cases rest with
  | nil => rfl
  | cons part rest => exact lineBreak_count _

theorem afterPart_split : ∃ gap, afterPart rest = gap ++ scriptLexemes rest := by
  cases rest with
  | nil => exact ⟨[],rfl⟩
  | cons part rest => exact ⟨[lineBreak .normal],rfl⟩

theorem recovered_iff (whole : ls = done ++ scriptLexemes parts)
    (shown : Forall₂ (Shown text ls) spans (scriptStatements parts)) :
    Forall₂ (Recovers text) spans ((units parts).map (·.source.content)) ↔ ∀ unit ∈ units parts, ¬ unit.QuotedName := by
  induction parts generalizing done spans with
  | nil =>
    cases shown
    exact iff_of_true .nil (forall_mem_nil _)
  | cons part rest ih =>
    obtain ⟨gap,next⟩ := afterPart_split rest
    have cut : ls = done ++ (part.lexemes ++ afterPart rest) := whole
    have ih := fun {spans} => @ih (done ++ part.lexemes ++ gap) spans (by rw [cut,next]; simp)
    cases part with
    | slash => exact ih shown
    | block unit =>
      rw [scriptStatements] at shown
      cases shown with
      | @cons span _ spans _ first later =>
        rw [units,map_cons,forall₂_cons,forall_mem_cons]
        by_cases quoted : unit.QuotedName
        · obtain ⟨_,_,_,_,shows⟩ := first
          have stays : span.terminated = false := by
            rw [shows.terminated,quoted]
            rfl
          constructor
          · rintro ⟨recovered,_⟩
            rw [recovered.terminated] at stays
            cases stays
          · exact fun none => absurd quoted none.1
        · rw [if_neg quoted] at later
          rw [ih later]
          rw [finish_unquoted unit.named quoted] at first
          have whole : ls = done ++ (unit.source.lexemes ++ semiLexeme :: afterPart rest) := by
            simpa [ScriptPart.lexemes] using cut
          exact and_congr_left' (iff_of_true (unit.source.recovered whole (afterPart_count rest) first) quoted)

/-- Exact recovery of nested units: one span for each unit of a script, in order, a finished
block with the text of the unit, if and only if no unit ends with a quoted name. The script is
short enough for the scan's counters. -/
theorem units_recovered_iff (parts : List (ScriptPart u keywords)) (short : len (script parts) < 2 ^ 31) :
    (∃ spans, splitStatements u (oracleLike keywords) (script parts) = some spans ∧
      Forall₂ (Recovers (script parts)) spans ((units parts).map (·.source.content))) ↔
        ∀ unit ∈ units parts, ¬ unit.QuotedName := by
  have lexed := lexemes_of_lexText (script_lexed parts)
  have splits := script_splits parts (script_viewed parts ▸ Nat.lt_of_le_of_lt (view_le_len lexed) short) suffix_rfl
  rw [← script_viewed] at splits
  obtain ⟨spans,split,shown⟩ := splitStatements_of_splits lexed splits
  rw [split,← recovered_iff parts (nil_append _).symm shown]
  simp only [Option.some.injEq,exists_eq_left']

theorem null_statement : Grammar.Yields (Production (oracleLike [])) [.nonterminal .statement]
    (piecesForm [keyword "null",.plain semi]) := by
  have quiet : ∀ p ∈ [keyword "null"], p.Quiet (oracleLike []) :=
    forall_mem_singleton.mpr ⟨by decide +kernel,rfl⟩
  have null : Production (oracleLike []) .expression (piecesForm [keyword "null"]) :=
    .expression quiet (cons_ne_nil _ _)
  have simple : Production (oracleLike []) .statement [.nonterminal .expression,.terminal (.plain semi)] :=
    @Production.simple _ [] [] (forall_mem_nil _) (forall_mem_nil _)
  exact .expand simple (.expand null (.refl _ _) (.refl _ [.terminal (Piece.plain semi)])) .nil

def wordLexeme (w : String) : Lexeme := ⟨.identifier,w.toList,.normal,.normal⟩
def blankLexeme : Lexeme := ⟨.whitespace,[' '],.normal,.normal⟩

theorem null_body : Grammar.Yields (Production (oracleLike [])) statementPart
    (piecesForm [keyword "null",.plain semi]) :=
  .expand .lastStatement null_statement (.expand .noHandlers .nil .nil)

theorem anonymous_parts : Opening.anonymous.Parts (oracleLike []) [] statementPart := .anonymous

def nullBlock : SourceUnit asciiTables [] where
  opening := .anonymous
  declarations := []
  body := statementPart
  parts := anonymous_parts
  pieces := [keyword "null",.plain semi]
  derived := null_body
  name := none
  named := isNaming_none
  source := {
    lexemes := [wordLexeme "BEGIN",blankLexeme,wordLexeme "NULL",semiLexeme,blankLexeme,wordLexeme "END"]
    lexed := by decide +kernel
    starts := by rintro l ⟨⟩; rfl
    viewed := by decide +kernel }

theorem null_blocks_recovered :
    ∃ spans, splitStatements asciiTables (oracleLike []) "BEGIN NULL; END;\n/\nBEGIN NULL; END;".toList = some spans ∧
      Forall₂ (Recovers "BEGIN NULL; END;\n/\nBEGIN NULL; END;".toList) spans
        ["BEGIN NULL; END".toList,"BEGIN NULL; END".toList] := by
  have same : script [.block nullBlock,.slash,.block nullBlock] = "BEGIN NULL; END;\n/\nBEGIN NULL; END;".toList := by
    decide +kernel
  rw [← same]
  exact (units_recovered_iff [.block nullBlock,.slash,.block nullBlock] (by rw [same]; decide)).mpr (by decide)

/-- The quoted name hides the terminator, and the next unit is lost. -/
theorem quoted_end_name_runs_on :
    splitStatements asciiTables (oracleLike []) "BEGIN NULL; END \"b\";\nBEGIN NULL; END;".toList =
      some [⟨0,37,37,1,1,.block,.endOfInput,false⟩] := by decide +kernel

end Reldex
