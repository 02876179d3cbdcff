import Reldex.Text

/-! The data a driver supplies to the lexer and the splitter, and the Oracle-shaped
descriptor. Keywords other than the highlighted set are matched by their text. -/
namespace Reldex

/-- Words matched in order, ignoring ASCII case. -/
abbrev Phrase := List Text

inductive KeywordSlot where
  | required (options : List Phrase)
  | optional (options : List Phrase)

inductive BlockKind where
  | structured
  | opaqueSource
  | parenDelimited
  deriving DecidableEq, Repr

structure BlockStarter where
  slots : List KeywordSlot
  kind : BlockKind
  opensBody : Bool

structure QuotingRules where
  alternativeQuotePrefixes : List Text
  nationalStringPrefixes : List Text

structure CommentRules where
  lineComment : Option Text
  blockComment : Option (Text × Text)
  lineCommentWords : List Text

structure SqlDialect where
  statementTerminators : List Char
  slashTerminatesBlock : Bool
  slashTerminatesPlain : Bool
  blockMayEndWithoutSlash : Bool
  blockStarters : List BlockStarter
  labelDelimiters : Option (Text × Text)
  blockBodyOpener : Text
  blockNestingOpeners : List Text
  blockEndKeyword : Text
  subprogramHeaderKeywords : List Text
  bodyIntroKeywords : List Text
  bodyIntroExceptions : List Phrase
  callSpecPhrases : List Phrase
  bodyLessMarkers : List Text
  sectionedBodyMarker : Option Phrase
  sectionHeaderStarters : List Text
  directivePrefix : Option Char
  quoting : QuotingRules
  comments : CommentRules
  bindVariables : Bool
  substitutionVariables : Bool
  keywords : List Text

/-- Whether `word` is one of `words`, ignoring ASCII case. -/
def wordIn (words : List Text) (word : Text) : Bool := words.any (eqIgnoreAsciiCase · word)
def SqlDialect.isKeyword (d : SqlDialect) (word : Text) : Bool := wordIn d.keywords word

/-- Block comments have delimiters that are not empty; an empty pair makes the
source's lexer loop for ever. -/
def SqlDialect.NonEmptyBlockDelimiters (d : SqlDialect) : Prop :=
  ∀ start stop, d.comments.blockComment = some (start,stop) → start ≠ [] ∧ stop ≠ []

def phrase (words : List String) : Phrase := words.map String.toList

def createStarter (modifiers : List KeywordSlot) (objects : List Phrase) (kind : BlockKind) :
    BlockStarter where
  slots := .required [phrase ["CREATE"]] :: .optional [phrase ["OR","REPLACE"]] :: modifiers ++ [.required objects]
  kind := kind
  opensBody := false

def editionable : List KeywordSlot :=
  [.optional [phrase ["EDITIONABLE"],phrase ["NONEDITIONABLE"]]]

def createSubprogramStarter : BlockStarter :=
  createStarter editionable [phrase ["PROCEDURE"],phrase ["FUNCTION"],phrase ["TRIGGER"]] .structured

def createCompoundStarter : BlockStarter :=
  createStarter editionable [phrase ["PACKAGE"],phrase ["PACKAGE","BODY"],phrase ["TYPE","BODY"]] .structured

def createTypeSpecStarter : BlockStarter :=
  createStarter editionable [phrase ["TYPE"]] .parenDelimited

def createJavaSourceStarter : BlockStarter :=
  createStarter [.optional [phrase ["AND","RESOLVE"],phrase ["AND","COMPILE"]],
    .optional [phrase ["NOFORCE"]]] [phrase ["JAVA","SOURCE"]] .opaqueSource

def declareStarter : BlockStarter := ⟨[.required [phrase ["DECLARE"]]],.structured,false⟩

/-- Matching consumes the block's own opener. -/
def beginStarter : BlockStarter := ⟨[.required [phrase ["BEGIN"]]],.structured,true⟩

/-- The Oracle-shaped dialect of the driver and of the crate's tests. The two differ
in the highlighted keywords only, which are the argument. -/
def oracleLike (keywords : List Text) : SqlDialect where
  statementTerminators := [';']
  slashTerminatesBlock := true
  slashTerminatesPlain := true
  blockMayEndWithoutSlash := true
  blockStarters := [declareStarter,beginStarter,createJavaSourceStarter,createSubprogramStarter,
    createCompoundStarter,createTypeSpecStarter]
  labelDelimiters := some ("<<".toList,">>".toList)
  blockBodyOpener := "BEGIN".toList
  blockNestingOpeners := phrase ["CASE","IF","LOOP"]
  blockEndKeyword := "END".toList
  subprogramHeaderKeywords := phrase ["PROCEDURE","FUNCTION"]
  bodyIntroKeywords := phrase ["IS","AS"]
  bodyIntroExceptions := [phrase ["SELF","AS"]]
  callSpecPhrases := [phrase ["LANGUAGE","JAVA"],phrase ["LANGUAGE","C"],
    phrase ["LANGUAGE","JAVASCRIPT"],phrase ["EXTERNAL","LIBRARY"],phrase ["EXTERNAL","NAME"]]
  bodyLessMarkers := phrase ["CALL"]
  sectionedBodyMarker := some (phrase ["COMPOUND","TRIGGER"])
  sectionHeaderStarters := phrase ["BEFORE","AFTER","INSTEAD"]
  directivePrefix := some '$'
  quoting := ⟨phrase ["Q","NQ"],phrase ["N"]⟩
  comments := ⟨some "--".toList,some ("/*".toList,"*/".toList),[]⟩
  bindVariables := true
  substitutionVariables := true
  keywords := keywords

theorem oracleLike_delimiters (keywords : List Text) : (oracleLike keywords).NonEmptyBlockDelimiters := by
  rintro start stop ⟨⟩
  decide

end Reldex
