import Reldex.DriverContract
import Reldex.Subwords

/-! What the Oracle driver reads out of a connect string before it opens a socket: the two
server-certificate parameters that upstream parses and never applies. A pinned distinguished
name is refused, the matching flag is only reported. -/
namespace Reldex
open List

inductive WarningKind where
  | compiledWithErrors
  | informational
  deriving DecidableEq, Repr

structure Warning where
  kind : WarningKind
  message : String
  deriving DecidableEq, Repr

namespace OracleThin

def extAllowUnenforcedServerCertDn : String := "oracle.allow_unenforced_server_cert_dn"

def pinRefusal : String :=
  "this connection's endpoint sets SSL_SERVER_CERT_DN, which asks for the server certificate's whole " ++
  "distinguished name to be pinned — and this driver version cannot enforce it. The Oracle crate it wraps " ++
  "parses the parameter and sends it to the server, but its TLS layer never reads it (upstream gap U-14), so " ++
  "the session would be opened with a weaker guarantee than the profile asked for and nothing would say so. " ++
  "What is verified on every TCPS session, and cannot be turned off: the certificate chain, its validity " ++
  "dates, the serverAuth extended key usage, and the host name from the descriptor's HOST against the " ++
  "certificate's subjectAltName — never the DN. Either remove SSL_SERVER_CERT_DN from the descriptor, or set " ++
  "the connection extension \"" ++ extAllowUnenforcedServerCertDn ++
  "\" to open the session knowing the pin is not applied"

def pinNotApplied : String :=
  "this connection's endpoint sets SSL_SERVER_CERT_DN and the extension \"" ++ extAllowUnenforcedServerCertDn ++
  "\" is set, so the session was opened without the distinguished-name pin the descriptor asked for: the " ++
  "Oracle crate this driver wraps never applies it (upstream gap U-14). The server certificate's chain, " ++
  "validity, serverAuth extended key usage and host name against subjectAltName were verified as they always " ++
  "are"

def dnMatchCannotBeDisabled : String :=
  "this connection's endpoint asks for SSL_SERVER_DN_MATCH to be off, and this driver cannot switch " ++
  "server-identity verification off. The Oracle crate it wraps never reads the parameter (upstream gap U-14), " ++
  "and the TLS verifier underneath has no way to disable the check: the host name from the descriptor's HOST " ++
  "is matched against the certificate's subjectAltName on every TCPS session. A connection that relied on the " ++
  "check being disabled will fail rather than fall back"

def dnMatchAlreadyStricter : String :=
  "this connection's endpoint sets SSL_SERVER_DN_MATCH, which this driver does not use: the Oracle crate it " ++
  "wraps sends the parameter to the server and its TLS layer never reads it (upstream gap U-14). The server's " ++
  "identity is verified regardless — the host name from the descriptor's HOST is matched against the " ++
  "certificate's subjectAltName on every TCPS session, which is stricter than a distinguished-name match " ++
  "rather than weaker — so the parameter asks for nothing that is not already happening"

def certDnKey : Text := "ssl_server_cert_dn".toList
def dnMatchKey : Text := "ssl_server_dn_match".toList

/-- Where a bare `SSL_SERVER_CERT_DN` value ends; any other terminator could empty a pin. -/
def certDnTerminators : List Char := ['(',')']

def dnMatchTerminators : List Char := ['(',')','&',';']

/-- The value that starts at `text`, as upstream stores it: quoted values are not trimmed. -/
def valueAt (text : Text) (terminators : List Char) : Text :=
  match trimStart text with
  | '"' :: inside => inside.takeWhile (· ≠ '"')
  | bare => trim (bare.takeWhile (· ∉ terminators))

/-- What a hit of the key is given; without `=` it is no parameter in any descriptor grammar. -/
def hitValue (terminators : List Char) (rest : Text) : Option Text :=
  match trimStart rest with
  | '=' :: after => some (valueAt after terminators)
  | _ => none

/-- Every value the key is given in this text, which is in lower case. -/
def valuesOf (text key : Text) (terminators : List Char) : List Text :=
  (Subword.afterEach key text.length text).filterMap (hitValue terminators)

/-- What a descriptor asks for; none of it is in force. -/
structure ServerCertificateRequest where
  pinsCertificateDn : Bool
  asksDnMatchOn : Bool
  asksDnMatchOff : Bool
  deriving DecidableEq, Repr

namespace ServerCertificateRequest

def isEmpty (request : ServerCertificateRequest) : Bool :=
  !request.pinsCertificateDn && !request.asksDnMatchOn && !request.asksDnMatchOff

def mergedWith (request other : ServerCertificateRequest) : ServerCertificateRequest where
  pinsCertificateDn := request.pinsCertificateDn || other.pinsCertificateDn
  asksDnMatchOn := request.asksDnMatchOn || other.asksDnMatchOn
  asksDnMatchOff := request.asksDnMatchOff || other.asksDnMatchOff

/-- Upstream's `Node::as_bool`. -/
def readsAsOn (value : Text) : Bool := trim value ∈ ["on".toList,"yes".toList,"true".toList]

def scanConnectString (text : Text) : ServerCertificateRequest :=
  -- An empty flag is skipped: upstream never sees it and keeps its default.
  let flags := (valuesOf (lower text) dnMatchKey dnMatchTerminators).filter (!·.isEmpty)
  { pinsCertificateDn := (valuesOf (lower text) certDnKey certDnTerminators).any (!·.isEmpty)
    asksDnMatchOn := flags.any readsAsOn
    asksDnMatchOff := flags.any (!readsAsOn ·) }

/-- The descriptor that upstream rebuilt carries `SSL_SERVER_DN_MATCH=ON` whenever it carries
the `SECURITY` segment, unless the flag was set to something else. -/
def scanUpstreamDescriptor (text : Text) : ServerCertificateRequest where
  pinsCertificateDn := (valuesOf (lower text) certDnKey certDnTerminators).any (!·.isEmpty)
  asksDnMatchOn := false
  asksDnMatchOff := (Subword.find "(security=".toList (lower text)).isSome &&
    (Subword.find dnMatchKey (lower text)).isNone

def guard (request : ServerCertificateRequest) (allowUnenforcedPin : Bool) : Except DbError (List Warning) :=
  if request.pinsCertificateDn && !allowUnenforcedPin then .error (.new .configuration pinRefusal)
  else .ok <|
    (if request.pinsCertificateDn then [⟨.informational,pinNotApplied⟩] else []) ++
    (if request.asksDnMatchOff then [⟨.informational,dnMatchCannotBeDisabled⟩] else []) ++
    (if request.asksDnMatchOn then [⟨.informational,dnMatchAlreadyStricter⟩] else [])

end ServerCertificateRequest

/-- A value that upstream stores as non-empty, right after the `=`. -/
inductive StoredValue : Text → Prop where
  | quoted (blank value rest : Text) (spaces : ∀ c ∈ blank, isWhitespace c = true) (filled : value ≠ [])
      (within : '"' ∉ value) (ends : rest = [] ∨ ∃ more, rest = '"' :: more) :
      StoredValue (blank ++ '"' :: (value ++ rest))
  | bare (blank value rest : Text) (spaces : ∀ c ∈ blank, isWhitespace c = true) (filled : trim value ≠ [])
      (within : ')' ∉ value) (ends : rest = [] ∨ ∃ more, rest = ')' :: more)
      (first : ∀ c ∈ value.head?, isWhitespace c = false ∧ c ≠ '"' ∧ c ≠ '(') : StoredValue (blank ++ (value ++ rest))

def NamesPin (text : Text) : Prop :=
  ∃ before key blank value, text = before ++ key ++ (blank ++ '=' :: value) ∧ lower key = certDnKey ∧
    (∀ c ∈ blank, isWhitespace c = true) ∧ StoredValue value

theorem takeWhile_ne_front {value rest : Text} (absent : c ∉ value)
    (ends : rest = [] ∨ ∃ more, rest = c :: more) : (value ++ rest).takeWhile (· ≠ c) = value := by
  have inside : ∀ d ∈ value, decide (d ≠ c) = true := by
    intro d member
    exact decide_eq_true fun same => absent (same ▸ member)
  rw [takeWhile_append_of_pos inside]
  rcases ends with rfl | ⟨more,rfl⟩ <;> simp

theorem dropWhile_ne_cases (c : Char) (text : Text) :
    text.dropWhile (· ≠ c) = [] ∨ ∃ more, text.dropWhile (· ≠ c) = c :: more := by
  cases left : text.dropWhile (· ≠ c) with
  | nil => exact .inl rfl
  | cons d more =>
    have stopped := head?_dropWhile_not (fun d => decide (d ≠ c)) text
    rw [left] at stopped
    exact .inr ⟨more,by simpa using stopped⟩

theorem not_mem_takeWhile_ne (c : Char) (text : Text) : c ∉ text.takeWhile (· ≠ c) := by
  intro member
  simpa using mem_takeWhile_imp member

theorem StoredValue.of_quoted (spaces : ∀ c ∈ blank, isWhitespace c = true)
    (filled : inside.takeWhile (· ≠ '"') ≠ []) : StoredValue (blank ++ '"' :: inside) := by
  have stored := StoredValue.quoted blank _ _ spaces filled (not_mem_takeWhile_ne _ _) (dropWhile_ne_cases '"' inside)
  rwa [takeWhile_append_dropWhile] at stored

theorem StoredValue.of_bare (spaces : ∀ c ∈ blank, isWhitespace c = true)
    (visible : isWhitespace c = false) (unquoted : c ≠ '"') (plain : c ∉ certDnTerminators) :
    StoredValue (blank ++ c :: rest) := by
  simp only [certDnTerminators,mem_cons,not_mem_nil,or_false,not_or] at plain
  have begins : (c :: rest).takeWhile (· ≠ ')') = c :: rest.takeWhile (· ≠ ')') :=
    takeWhile_cons_of_pos (by simpa using plain.2)
  have filled : trim ((c :: rest).takeWhile (· ≠ ')')) ≠ [] := by
    rw [begins]
    exact trim_ne_nil visible (mem_cons_self ..)
  have first : ∀ d ∈ ((c :: rest).takeWhile (· ≠ ')')).head?, isWhitespace d = false ∧ d ≠ '"' ∧ d ≠ '(' := by
    rw [begins]
    rintro d ⟨⟩
    exact ⟨visible,unquoted,plain.1⟩
  have stored := StoredValue.bare blank _ _ spaces filled (not_mem_takeWhile_ne _ _)
    (dropWhile_ne_cases ')' (c :: rest)) first
  rwa [takeWhile_append_dropWhile] at stored

theorem valueAt_quoted (opens : trimStart text = '"' :: inside) :
    valueAt text certDnTerminators = inside.takeWhile (· ≠ '"') := by
  unfold valueAt
  rw [opens]
  rfl

theorem valueAt_blank (blank : trimStart text = []) : valueAt text certDnTerminators = [] := by
  unfold valueAt
  rw [blank]
  rfl

theorem valueAt_bare (begins : trimStart text = c :: rest) (unquoted : c ≠ '"') :
    valueAt text certDnTerminators = trim ((c :: rest).takeWhile (· ∉ certDnTerminators)) := by
  unfold valueAt
  split
  next inside opens =>
    rw [begins,cons.injEq] at opens
    exact absurd opens.1 unquoted
  next => rw [begins]

theorem valueAt_ne_nil_iff (text : Text) : valueAt text certDnTerminators ≠ [] ↔ StoredValue text := by
  constructor
  · intro stored
    cases begins : trimStart text with
    | nil => exact absurd (valueAt_blank begins) stored
    | cons c rest =>
      have visible : isWhitespace c = false := by
        have stopped := head?_dropWhile_not isWhitespace text
        rw [← trimStart,begins] at stopped
        simpa using stopped
      obtain ⟨blank,spaces,rfl⟩ := (trimStart_eq_cons_iff visible text rest).mp begins
      by_cases quoted : c = '"'
      · subst quoted
        rw [valueAt_quoted begins] at stored
        exact .of_quoted spaces stored
      · rw [valueAt_bare begins quoted] at stored
        refine .of_bare spaces visible quoted fun stops => stored ?_
        rw [takeWhile_cons_of_neg (by simpa using stops)]
        rfl
  · intro stored
    cases stored with
    | quoted blank value rest spaces filled within ends =>
      have opens := (trimStart_eq_cons_iff (c := '"') (by decide) _ (value ++ rest)).mpr ⟨blank,spaces,rfl⟩
      rw [valueAt_quoted opens,takeWhile_ne_front within ends]
      exact filled
    | bare blank value rest spaces filled within ends first =>
      cases value with
      | nil => exact absurd rfl filled
      | cons c value =>
        obtain ⟨visible,unquoted,open_⟩ := first c rfl
        have begins := (trimStart_eq_cons_iff visible _ (value ++ rest)).mpr ⟨blank,spaces,rfl⟩
        have plain : c ∉ certDnTerminators := by
          simpa [certDnTerminators] using ⟨open_,fun same => within (by simp [same])⟩
        rw [cons_append,valueAt_bare begins unquoted,takeWhile_cons_of_pos (by simpa using plain)]
        exact trim_ne_nil visible (mem_cons_self ..)

theorem takeWhile_lower (p : Char → Bool) (same : ∀ c, p c.toLower = p c) (text : Text) :
    (lower text).takeWhile p = lower (text.takeWhile p) := by
  simp only [lower,takeWhile_map]
  congr 2
  funext c
  exact same c

theorem valueAt_lower (text : Text) :
    valueAt (lower text) certDnTerminators = lower (valueAt text certDnTerminators) := by
  cases begins : trimStart text with
  | nil => rw [valueAt_blank begins,valueAt_blank (by rw [trimStart_lower,begins]; rfl)]; rfl
  | cons c rest =>
    have lowered : trimStart (lower text) = c.toLower :: lower rest := by rw [trimStart_lower,begins]; rfl
    by_cases quoted : c = '"'
    · subst quoted
      rw [valueAt_quoted begins,valueAt_quoted lowered]
      exact takeWhile_lower _ (fun c => by simp [toLower_eq_iff]) rest
    · have unquoted : c.toLower ≠ '"' := fun same => quoted ((toLower_eq_iff (by decide)).mp same)
      rw [valueAt_bare begins quoted,valueAt_bare lowered unquoted,← trim_lower]
      congr 1
      refine takeWhile_lower _ (fun c => ?_) (c :: rest)
      simp [certDnTerminators,toLower_eq_iff]

theorem certDnKey_unbordered : Subword.Unbordered certDnKey := by decide

theorem mem_hits_iff (text rest : Text) : rest ∈ Subword.afterEach certDnKey (lower text).length (lower text) ↔
      ∃ before key after, text = before ++ key ++ after ∧ lower key = certDnKey ∧ lower after = rest := by
  rw [Subword.mem_afterEach certDnKey_unbordered (by decide) (Nat.le_refl _)]
  constructor
  · rintro ⟨before,split⟩
    obtain ⟨front,after,rfl,lowered,rfl⟩ := map_eq_append_iff.mp split
    obtain ⟨before,key,rfl,_,same⟩ := map_eq_append_iff.mp lowered
    exact ⟨before,key,after,rfl,same,rfl⟩
  · rintro ⟨before,key,after,rfl,same,rfl⟩
    exact ⟨lower before,by simp [lower,← same]⟩

theorem hitValue_eq_some_iff (terminators : List Char) (rest value : Text) : hitValue terminators rest = some value ↔
      ∃ after, trimStart rest = '=' :: after ∧ valueAt after terminators = value := by
  unfold hitValue
  split
  next after begins => simp [begins]
  next other =>
    constructor
    · intro impossible
      cases impossible
    · rintro ⟨after,begins,_⟩
      exact absurd begins (other after)

theorem hit_stores_iff (rest : Text) : (∃ value, hitValue certDnTerminators (lower rest) = some value ∧ value ≠ []) ↔
      ∃ blank value, (∀ c ∈ blank, isWhitespace c = true) ∧ rest = blank ++ '=' :: value ∧ StoredValue value := by
  constructor
  · rintro ⟨value,hit,filled⟩
    obtain ⟨after,begins,rfl⟩ := (hitValue_eq_some_iff _ _ _).mp hit
    rw [trimStart_lower] at begins
    obtain ⟨c,after,trimmed,equals,rfl⟩ := map_eq_cons_iff.mp begins
    obtain rfl := (toLower_eq_iff (by decide)).mp equals
    obtain ⟨blank,spaces,rfl⟩ := (trimStart_eq_cons_iff (by decide) rest after).mp trimmed
    refine ⟨blank,after,spaces,rfl,(valueAt_ne_nil_iff after).mp fun empty => filled ?_⟩
    rw [← lower,valueAt_lower,empty]
    rfl
  · rintro ⟨blank,value,spaces,rfl,stored⟩
    have trimmed := (trimStart_eq_cons_iff (c := '=') (by decide) _ value).mpr ⟨blank,spaces,rfl⟩
    refine ⟨_,(hitValue_eq_some_iff _ _ _).mpr ⟨lower value,?_,rfl⟩,?_⟩
    · rw [trimStart_lower,trimmed]
      rfl
    · rw [valueAt_lower]
      simpa [lower] using (valueAt_ne_nil_iff value).mpr stored

theorem pinsCertificateDn_iff (text : Text) :
    (valuesOf (lower text) certDnKey certDnTerminators).any (!·.isEmpty) = true ↔ NamesPin text := by
  have any : (valuesOf (lower text) certDnKey certDnTerminators).any (!·.isEmpty) = true ↔
      ∃ rest ∈ Subword.afterEach certDnKey (lower text).length (lower text),
        ∃ value, hitValue certDnTerminators rest = some value ∧ value ≠ [] := by
    simp only [valuesOf,any_eq_true,mem_filterMap,Bool.not_eq_true',isEmpty_eq_false_iff]
    exact ⟨fun ⟨value,⟨rest,member,hit⟩,filled⟩ => ⟨rest,member,value,hit,filled⟩,
      fun ⟨rest,member,value,hit,filled⟩ => ⟨value,⟨rest,member,hit⟩,filled⟩⟩
  rw [any]
  constructor
  · rintro ⟨rest,member,stores⟩
    obtain ⟨before,key,after,rfl,same,rfl⟩ := (mem_hits_iff _ _).mp member
    obtain ⟨blank,value,spaces,rfl,stored⟩ := (hit_stores_iff after).mp stores
    exact ⟨before,key,blank,value,rfl,same,spaces,stored⟩
  · rintro ⟨before,key,blank,value,rfl,same,spaces,stored⟩
    exact ⟨_,(mem_hits_iff _ _).mpr ⟨before,key,_,rfl,same,rfl⟩,(hit_stores_iff _).mpr ⟨blank,value,spaces,rfl,stored⟩⟩

theorem guard_refuses_iff (request : ServerCertificateRequest) :
    (∃ error, request.guard false = .error error) ↔ request.pinsCertificateDn = true := by
  unfold ServerCertificateRequest.guard
  split_ifs with refused
  · simpa using refused
  · simpa using refused

/-- No pin slips past the guard, and nothing else is refused. -/
theorem guard_refuses_exactly_pins (text : Text) :
    ((ServerCertificateRequest.scanConnectString text).pinsCertificateDn = true ↔ NamesPin text) ∧
    ((∃ error, (ServerCertificateRequest.scanConnectString text).guard false = .error error) ↔ NamesPin text) :=
  ⟨pinsCertificateDn_iff text,(guard_refuses_iff _).trans (pinsCertificateDn_iff text)⟩

/-- A quoted value is not trimmed, so a blank one is a pin; a bare one is trimmed. -/
example : (ServerCertificateRequest.scanConnectString "(Ssl_Server_Cert_Dn = \" \")".toList).pinsCertificateDn = true ∧
    (ServerCertificateRequest.scanConnectString "(SSL_SERVER_CERT_DN=  )".toList).pinsCertificateDn = false := by
  decide

end OracleThin
end Reldex
