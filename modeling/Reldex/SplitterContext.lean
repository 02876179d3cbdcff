import Reldex.SplitterView

/-! What a scan of the view depends on. It reads on from where it starts, and it looks back
only for a phrase, so no further than the last token that is no word. What follows a
terminator is therefore split the same whatever precedes the terminator. -/
namespace Reldex
open List hiding after

namespace View
variable {d : SqlDialect} {view rest whole whole' : List Sig} {e : Ending}

/-- The scan closed and goes on within the view it read. -/
structure Ending.Within (view : List Sig) (e : Ending) : Prop where
  closer : e.closer <:+ view
  next : e.next <:+ view

theorem Ending.Within.of_suffix (within : e.Within rest) (tail : rest <:+ view) : e.Within view :=
  ⟨within.closer.trans tail,within.next.trans tail⟩

theorem ranToEof_within (kind : StatementKind) (view : List Sig) : (ranToEof kind).Within view :=
  ⟨nil_suffix,nil_suffix⟩

theorem endAtSlashLine_within (s : Sig) (rest : List Sig) (kind : StatementKind) :
    (endAtSlashLine (s :: rest) rest kind).Within (s :: rest) := ⟨suffix_rfl,suffix_cons ..⟩

theorem followingSlash_suffix (found : followingSlash view = some rest) : rest <:+ view := by
  fun_induction followingSlash view with
  | case1 view ih => exact (ih found).trans (suffix_cons ..)
  | case2 spelling view => cases found; exact suffix_cons ..
  | case3 => cases found

theorem followingSlash_mem (found : followingSlash view = some rest) (member : .word w ∈ view) : .word w ∈ rest := by
  fun_induction followingSlash view with
  | case1 view ih => exact ih found (by simpa using member)
  | case2 spelling view =>
    cases found
    simpa using member
  | case3 => cases found

theorem finish_next_mem {next : List Sig} (member : .word w ∈ next) :
    .word w ∈ (finishWithMaybeSlash d closer next kind).next := by
  unfold finishWithMaybeSlash
  split
  · next found =>
    split at found
    · exact followingSlash_mem found member
    · cases found
  · exact member

variable (closer next : List Sig) (kind : StatementKind)

theorem finish_next_suffix : (finishWithMaybeSlash d closer next kind).next <:+ next := by
  unfold finishWithMaybeSlash
  split
  · next found =>
    split at found
    · exact followingSlash_suffix found
    · cases found
  · exact suffix_rfl

@[simp] theorem finish_closer : (finishWithMaybeSlash d closer next kind).closer = closer := by
  unfold finishWithMaybeSlash
  split <;> rfl

theorem finishWithMaybeSlash_within (s : Sig) (rest : List Sig) (kind : StatementKind) :
    (finishWithMaybeSlash d (s :: rest) rest kind).Within (s :: rest) :=
  ⟨by simp [finish_closer],(finish_next_suffix ..).trans (suffix_cons ..)⟩

theorem scanPlain_within (view : List Sig) : (scanPlain d view).Within view := by
  induction view with
  | nil => exact ranToEof_within ..
  | cons s rest ih =>
    simp only [scanPlain]
    split
    · exact endAtSlashLine_within ..
    · split
      · exact ⟨suffix_rfl,suffix_cons ..⟩
      · exact ih.of_suffix (suffix_cons ..)

theorem scanOpaqueSource_within (view : List Sig) : (scanOpaqueSource view).Within view := by
  induction view with
  | nil => exact ranToEof_within ..
  | cons s rest ih =>
    simp only [scanOpaqueSource]
    split
    · exact endAtSlashLine_within ..
    · exact ih.of_suffix (suffix_cons ..)

theorem scanParenDelimited_within (parenDepth : Int32) (view : List Sig) :
    (scanParenDelimited d parenDepth view).Within view := by
  induction view generalizing parenDepth with
  | nil => exact ranToEof_within ..
  | cons s rest ih =>
    simp only [scanParenDelimited]
    split
    · exact endAtSlashLine_within ..
    · split
      · exact (ih _).of_suffix (suffix_cons ..)
      · split
        · exact finishWithMaybeSlash_within ..
        · exact (ih _).of_suffix (suffix_cons ..)

theorem scanToTerminator_within (view : List Sig) : (scanToTerminator d view).Within view := by
  induction view with
  | nil => exact ranToEof_within ..
  | cons s rest ih =>
    simp only [scanToTerminator]
    split
    · exact endAtSlashLine_within ..
    · split
      · exact finishWithMaybeSlash_within ..
      · exact ih.of_suffix (suffix_cons ..)

theorem finishStructured_within (view : List Sig) : (finishStructured d view).Within view := by
  have tail := skipWords_suffix view
  unfold finishStructured
  split
  · exact ranToEof_within ..
  · next s rest same =>
    rw [same] at tail
    split
    · exact (finishWithMaybeSlash_within ..).of_suffix tail
    · exact ranToEof_within ..

theorem structuredWord_within (returned : structuredWord d whole s w rest = .done e) : e.Within rest := by
  simp only [structuredWord] at returned
  split at returned
  · cases returned
    exact scanToTerminator_within rest
  · split at returned
    · cases returned
      exact scanToTerminator_within rest
    · split at returned
      · cases returned
      · split at returned
        · split at returned
          · cases returned
            exact finishStructured_within rest
          · cases returned
        · split at returned
          · cases returned
          · split at returned <;> cases returned

theorem structuredTurn_within (returned : structuredTurn d whole s = .done e) : e.Within s.rest := by
  obtain ⟨view,depth,pending,absorbed,compound,parens⟩ := s
  cases view with
  | nil => cases returned; exact ranToEof_within ..
  | cons s rest =>
    cases s with
    | word w =>
      simp only [structuredTurn] at returned
      split at returned
      · cases returned
      · exact (structuredWord_within returned).of_suffix (suffix_cons ..)
    | _ =>
      simp only [structuredTurn] at returned
      split at returned <;> cases returned
      exact endAtSlashLine_within ..

theorem reaches_suffix (path : Turn.Reaches (structuredTurn d whole) s t) : t.rest <:+ s.rest := by
  refine path.invariant (·.rest <:+ s.rest) ?_ suffix_rfl
  intro middle t before moved
  obtain ⟨first,rest,same,tail⟩ := structuredTurn_suffix moved
  rw [same] at before
  exact tail.trans ((suffix_cons ..).trans before)

theorem structured_within (ended : Turn.Ends (structuredTurn d whole) s e) : e.Within s.rest := by
  obtain ⟨t,path,returned⟩ := ended
  exact (structuredTurn_within returned).of_suffix (reaches_suffix path)

theorem skipLabels_suffix (view : List Sig) : skipLabels d view <:+ view := by
  have loop (labels : Text × Text) (fuel : Nat) (view : List Sig) : skipLabelsLoop labels fuel view <:+ view := by
    fun_induction skipLabelsLoop labels fuel view with
    | case1 view => exact suffix_rfl
    | case2 fuel view none => exact suffix_rfl
    | case3 fuel view after found ih =>
      obtain ⟨first,rest,rfl,tail⟩ := skipLabel_suffix found
      exact ih.trans (tail.trans (suffix_cons ..))
  unfold skipLabels
  split
  · exact suffix_rfl
  · exact loop _ _ _

theorem leadingWords_suffix (left : Nat) (view : List Sig) : ∀ word ∈ leadingWords left view, word.2 <:+ view := by
  fun_induction leadingWords left view with
  | case3 left w rest ih =>
    intro found member
    rcases mem_cons.mp member with rfl | member
    · exact suffix_cons ..
    · exact (ih found member).trans (suffix_cons ..)
  | case4 left rest ih => exact fun found member => (ih found member).trans (suffix_cons ..)
  | _ => exact forall_mem_nil _

theorem matchedStarter_suffix (found : matchedStarter d view = some (starter,after)) : after <:+ view := by
  obtain ⟨candidate,_,matched⟩ := exists_of_findSome?_eq_some found
  simp only [Option.map_eq_some_iff,Prod.mk.injEq] at matched
  obtain ⟨_,matched,_,rfl⟩ := matched
  rcases matchesBlockStarter_mem matched with rfl | ⟨word,member,rfl⟩
  · exact skipLabels_suffix view
  · exact (leadingWords_suffix _ _ word member).trans (skipLabels_suffix view)

theorem structured_ends (d : SqlDialect) (whole : List Sig) (s : State) :
    ∃ e, Turn.Ends (structuredTurn d whole) s e := by
  obtain ⟨e,ran⟩ := Turn.run_total (structuredTurn_decreasing) (Nat.lt_succ_self s.rest.length)
  exact ⟨e,Turn.ends_of_run ran⟩

theorem scanStructured_ends (starter : BlockStarter) (rest : List Sig) :
    Turn.Ends (structuredTurn d whole) (structuredStart starter rest) (scanStructured d whole starter rest) := by
  obtain ⟨e,ended⟩ := structured_ends d whole (structuredStart starter rest)
  rw [scanStructured_eq ended]
  exact ended

theorem scanStatement_within (view : List Sig) : (scanStatement d whole view).Within view := by
  unfold scanStatement
  cases matched : matchedStarter d view with
  | none => exact scanPlain_within view
  | some found =>
    have tail := matchedStarter_suffix matched
    refine Ending.Within.of_suffix ?_ tail
    simp only
    cases found.1.kind with
    | structured => exact structured_within (scanStructured_ends ..)
    | opaqueSource => exact scanOpaqueSource_within _
    | parenDelimited => exact scanParenDelimited_within ..

theorem Splits.ne_nil (splits : Splits d whole view statements) (member : s ∈ view)
    (real : isLone s = false) : statements ≠ [] := by
  induction splits with
  | stop => cases member
  | idle lone _ ih =>
    rcases mem_cons.mp member with rfl | member
    · rw [real,Bool.and_false] at lone; cases lone
    · exact ih member
  | statement => exact cons_ne_nil _ _

theorem Splits.suffix (splits : Splits d whole view statements) : ∀ found ∈ statements, found.1 <:+ view := by
  induction splits with
  | stop => exact forall_mem_nil _
  | idle _ _ ih => exact fun found member => (ih found member).trans (suffix_cons ..)
  | statement _ scanned _ ih =>
    subst scanned
    refine forall_mem_cons.mpr ⟨suffix_rfl,fun found member => ?_⟩
    exact (ih found member).trans (scanStatement_within _).next

/-- Two documents in which the same phrases precede each suffix of the view. -/
def Alike (view whole whole' : List Sig) : Prop :=
  ∀ after, after <:+ view → ∀ phrase, endsWithPhrase whole after phrase = endsWithPhrase whole' after phrase

section
variable (alike : Alike view whole whole')
include alike

theorem Alike.intro_eq (tail : rest <:+ view) (w : Text) :
    isBodyIntro d whole w rest = isBodyIntro d whole' w rest := by
  unfold isBodyIntro
  congr 3
  exact funext (alike rest tail)

theorem Alike.header_eq (parenDepth : Int32) (tail : rest <:+ view) :
    scanHeader d whole parenDepth rest = scanHeader d whole' parenDepth rest := by
  induction rest generalizing parenDepth with
  | nil => rfl
  | cons s rest ih =>
    have inner := (suffix_cons ..).trans tail
    have ih := fun parenDepth => ih parenDepth inner
    cases s with
    | word w => simp only [scanHeader,alike.intro_eq inner,ih]
    | _ => simp only [scanHeader,ih]

theorem Alike.turn_eq (s : State) (tail : s.rest <:+ view) : structuredTurn d whole s = structuredTurn d whole' s := by
  obtain ⟨rest,depth,pending,absorbed,compound,parens⟩ := s
  cases rest with
  | nil => rfl
  | cons s rest =>
    have inner : rest <:+ view := (suffix_cons ..).trans tail
    cases s with
    | word w => simp only [structuredTurn,structuredWord,alike.intro_eq inner,alike.header_eq 0 inner]
    | _ => rfl

theorem Alike.ends {s : State} (tail : s.rest <:+ view)
    (ended : Turn.Ends (structuredTurn d whole) s e) : Turn.Ends (structuredTurn d whole') s e := by
  obtain ⟨t,path,returned⟩ := ended
  induction path with
  | refl => exact ⟨_,.refl,alike.turn_eq _ tail ▸ returned⟩
  | step moved _ ih =>
    obtain ⟨first,rest,same,inner⟩ := structuredTurn_suffix moved
    have later := ih (inner.trans ((suffix_cons ..).trans (same ▸ tail))) returned
    exact later.before (.single (alike.turn_eq _ tail ▸ moved))

theorem Alike.scan_eq (tail : rest <:+ view) : scanStatement d whole rest = scanStatement d whole' rest := by
  unfold scanStatement
  cases matched : matchedStarter d rest with
  | none => rfl
  | some found =>
    have inner := (matchedStarter_suffix matched).trans tail
    simp only
    cases found.1.kind with
    | structured =>
      exact (scanStructured_eq (alike.ends inner (scanStructured_ends ..))).symm
    | opaqueSource => rfl
    | parenDelimited => rfl

theorem Alike.splits (tail : rest <:+ view)
    (splits : Splits d whole rest statements) : Splits d whole' rest statements := by
  induction splits with
  | stop => exact .stop
  | idle lone _ ih => exact .idle lone (ih ((suffix_cons ..).trans tail))
  | statement real scanned _ ih =>
    rw [alike.scan_eq tail] at scanned
    subst scanned
    exact .statement real rfl (ih ((scanStatement_within _).next.trans tail))

end

theorem peekPhrase_stops (noWord : isWord s = false) (phrase : Phrase) (front back back' : List Sig) :
    peekPhrase phrase (front ++ s :: back) = peekPhrase phrase (front ++ s :: back') := by
  induction phrase generalizing front with
  | nil => rfl
  | cons expected phrase ih =>
    cases front with
    | nil =>
      cases s with
      | word w => cases noWord
      | _ => rfl
    | cons x front =>
      cases x with
      | word w => simp only [cons_append,peekPhrase,ih]
      | _ => rfl

theorem alike_after (noWord : isWord s = false) (front front' view : List Sig) :
    Alike view (front ++ s :: view) (front' ++ s :: view) := by
  rintro after ⟨read,rfl⟩ phrase
  have behind (front : List Sig) : (consumed (front ++ s :: (read ++ after)) after).reverse =
      read.reverse ++ s :: front.reverse := by
    have regroup : front ++ s :: (read ++ after) = (front ++ s :: read) ++ after := by simp
    rw [regroup,consumed_front]
    simp
  rw [endsWithPhrase,endsWithPhrase,behind,behind]
  exact peekPhrase_stops noWord ..

end View
end Reldex
