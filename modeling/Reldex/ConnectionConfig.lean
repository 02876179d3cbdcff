import Reldex.ConnectDescriptor

/-! How the Oracle driver turns connection parameters into an upstream configuration. What
upstream makes of a connect string is a parameter. -/
namespace Reldex
open List Nat

inductive ExtensionValue where
  | text (value : Text)
  | secret (value : Text)
  | integer (value : Int)
  | flag (value : Bool)
  deriving DecidableEq, Repr

inductive Endpoint where
  | hostPort (host : Text) (port : UInt16) (service : Text)
  | connectString (value : Text)
  -- The enumeration is open; this stands for every shape added later.
  | other
  deriving DecidableEq, Repr

inductive Credentials where
  | userPassword (username password : Text)
  | external
  deriving DecidableEq, Repr

inductive SessionRole where
  | normal
  | sysDba
  | sysOper
  deriving DecidableEq, Repr

inductive TlsMode where
  | disabled
  | required
  deriving DecidableEq, Repr

structure ConnectionParams where
  endpoint : Endpoint
  credentials : Credentials
  role : SessionRole
  tls : TlsMode
  extensions : String → Option ExtensionValue

namespace OracleThin

inductive Building where
  | easyConnect
  | sidDescriptor
  deriving DecidableEq, Repr

def Building.explanation : Building → String
  | .easyConnect =>
    "This driver builds an Easy Connect string from the host, port and service name, so they must be plain " ++
    "names; supply a TNS descriptor through a connect-string endpoint"
  | .sidDescriptor =>
    "This driver builds a connect descriptor from the host, port and SID, so they must be plain names; supply " ++
    "a full TNS descriptor through a connect-string endpoint"

def refuseName (what : String) (building : Building) (reason : String) : DbError :=
  .new .configuration ("the " ++ what ++ " in this connection's endpoint " ++ reason ++ ". " ++ building.explanation ++
    " instead of hiding one in the " ++ what)

/-- The text between square brackets, which only an IPv6 literal has. -/
def unbracketed (value : Text) : Option Text :=
  match value with
  | '[' :: rest => if rest.getLast? = some ']' then some rest.dropLast else none
  | _ => none

def allowedInName (bracketed : Bool) (c : Char) : Bool :=
  c.isAlphanum || c == '.' || c == '-' || c == '_' || (bracketed && c == ':')

def plainName (value : Text) (what : String) (building : Building) : Except DbError Text :=
  let text := (unbracketed value).getD value
  if text.isEmpty then .error (refuseName what building "is empty")
  else if len text > 255 then .error (refuseName what building "is longer than 255 characters")
  else if !text.all (allowedInName (unbracketed value).isSome) then
    .error (refuseName what building "contains a character that is not allowed in a plain name")
  else .ok text

def easyConnect (host : Text) (port : UInt16) (service : Text) (tls : Bool) : Except DbError Text := do
  let _ ← plainName host "host" .easyConnect
  let _ ← plainName service "service name" .easyConnect
  let address := host ++ ":".toList ++ toDigits 10 port.toNat ++ "/".toList ++ service
  return if tls then "tcps://".toList ++ address else address

def sidEndpoint (host : Text) (port : UInt16) (sid : Text) (tls : Bool) : Except DbError Text := do
  let host ← plainName host "host" .sidDescriptor
  let sid ← plainName sid "SID" .sidDescriptor
  let protocol := if tls then "TCPS" else "TCP"
  return "(DESCRIPTION=(ADDRESS=(PROTOCOL=".toList ++ protocol.toList ++ ")(HOST=".toList ++ host ++ ")(PORT=".toList ++
    toDigits 10 port.toNat ++ "))(CONNECT_DATA=(SID=".toList ++ sid ++ ")))".toList

def isSyntax (c : Char) : Bool := c == '(' || c == ')' || c == '='

theorem allowedInName_isSyntax (allowed : allowedInName bracketed c = true) : isSyntax c = false := by
  cases syntactic : isSyntax c with
  | false => rfl
  | true =>
    simp only [isSyntax,Bool.or_eq_true,beq_iff_eq] at syntactic
    rcases syntactic with (rfl | rfl) | rfl <;> revert allowed <;> cases bracketed <;> decide

theorem plainName_eq (plain : plainName value what building = .ok text) :
    text = (unbracketed value).getD value ∧ ∀ c ∈ text, allowedInName (unbracketed value).isSome c = true := by
  unfold plainName at plain
  dsimp only at plain
  split_ifs at plain with empty long strange
  cases plain
  exact ⟨rfl,by simpa using strange⟩

theorem plainName_filter (plain : plainName value what building = .ok text) : text.filter isSyntax = [] := by
  rw [filter_eq_nil_iff]
  intro c member
  simpa using allowedInName_isSyntax ((plainName_eq plain).2 c member)

theorem toDigits_filter (n : Nat) : (toDigits 10 n).filter isSyntax = [] := by
  rw [filter_eq_nil_iff]
  intro c member
  have digit := isDigit_of_mem_toDigits (by decide) (by decide) member
  have allowed : allowedInName false c = true := by simp [allowedInName,Char.isAlphanum,digit]
  simpa using allowedInName_isSyntax allowed

/-- Neither name can add a node to the descriptor of a SID, or close one. -/
theorem sidEndpoint_filter {tls : Bool}
    (built : sidEndpoint host port sid tls = .ok text) : text.filter isSyntax = "(=(=(=)(=)(=))(=(=)))".toList := by
  obtain ⟨plainHost,hosts,named⟩ := bind_ok built
  obtain ⟨plainSid,sids,done⟩ := bind_ok named
  cases done
  simp only [filter_append,plainName_filter hosts,plainName_filter sids,toDigits_filter]
  cases tls <;> decide

structure Address where
  protocol : Text
  deriving DecidableEq, Repr

def Address.isTcps (address : Address) : Prop := lower address.protocol = "tcps".toList

instance (address : Address) : Decidable address.isTcps := inferInstanceAs (Decidable (_ = _))

/-- Nodes of a connect descriptor, one after the other: each has a value or nodes of its own. -/
inductive Nodes where
  | nil
  | leaf (name value : Text) (rest : Nodes)
  | node (name : Text) (inner rest : Nodes)

def tcpsNode : Text := "(protocol=tcps)".toList

namespace Nodes

def text : Nodes → Text
  | nil => []
  | leaf name value rest => '(' :: (name ++ '=' :: (value ++ ')' :: rest.text))
  | node name inner rest => '(' :: (name ++ '=' :: (inner.text ++ ')' :: rest.text))

def protocols : Nodes → List Text
  | nil => []
  | leaf name value rest => if lower name = "protocol".toList then value :: rest.protocols else rest.protocols
  | node _ inner rest => inner.protocols ++ rest.protocols

def isPlain : Nodes → Bool
  | nil => true
  | leaf name value rest => name.all (!isSyntax ·) && value.all (fun c => c != '(' && c != ')') && rest.isPlain
  | node name inner rest => name.all (!isSyntax ·) && inner.isPlain && rest.isPlain

end Nodes

/-- What upstream makes of a connect string: `set_connect_string` parses it (with its errors as
this driver maps them) and `get_connect_descriptor` renders nodes, for every address one with its
protocol. -/
structure Upstream where
  Descriptor : Type
  parse : Text → Except DbError Descriptor
  addresses : Descriptor → List Address
  nodes : Descriptor → Nodes
  renders : ∀ descriptor, ∀ address ∈ addresses descriptor, address.protocol ∈ (nodes descriptor).protocols

def Upstream.render (upstream : Upstream) (descriptor : upstream.Descriptor) : Text := (upstream.nodes descriptor).text

structure Upstream.Regular (upstream : Upstream) (descriptor : upstream.Descriptor) : Prop where
  plain : (upstream.nodes descriptor).isPlain = true
  owned : ∀ protocol ∈ (upstream.nodes descriptor).protocols, ⟨protocol⟩ ∈ upstream.addresses descriptor

inductive AuthMode where
  | default
  | sysDba
  | sysOper
  deriving DecidableEq, Repr

structure Config (upstream : Upstream) where
  descriptor : upstream.Descriptor
  walletLocation : Option Text
  walletPassword : Option Text
  credentials : Option (Text × Text)
  authMode : AuthMode
  stmtCacheSize : Nat

structure Prepared (upstream : Upstream) where
  config : Config upstream
  warnings : List Warning
  namesCertificateParameters : Bool

section

def extWalletDir : String := "oracle.wallet_dir"
def extWalletPassword : String := "oracle.wallet_password"
def extStatementCacheSize : String := "oracle.statement_cache_size"

def plaintextRefusal : DbError :=
  .new .configuration
    ("this connection requires encrypted transport, but its endpoint does not ask for TCPS. A connect-string " ++
    "endpoint must name (PROTOCOL=TCPS) — and the TLS port, usually 2484 — itself; this driver will not rewrite " ++
    "a descriptor, and it will not open a plaintext session for a profile that requires TLS")

variable (upstream : Upstream)

def connectString (params : ConnectionParams) : Except DbError Text :=
  match params.endpoint with
  | .hostPort host port service => easyConnect host port service (params.tls == .required)
  | .connectString value => .ok value
  | .other => .error (.new .configuration "this driver does not understand this endpoint shape")

def spellsTcps (descriptor : upstream.Descriptor) : Bool :=
  (Subword.find tcpsNode (lower (upstream.render descriptor))).isSome

def walletLocation (params : ConnectionParams) : Except DbError (Option Text) :=
  match params.extensions extWalletDir with
  | some (.text directory) => .ok (some directory)
  | some _ => .error (.new .configuration
      ("\"" ++ extWalletDir ++ "\" must be a text value: the path of a directory"))
  | none => .ok none

def walletPassword (params : ConnectionParams) : Except DbError (Option Text) :=
  match params.extensions extWalletPassword with
  | some (.secret password) => .ok (some password)
  | some _ => .error (.new .configuration ("\"" ++ extWalletPassword ++
      "\" must be a secret value, so that it cannot reach a log through an ordinary debug rendering"))
  | none => .ok none

def userPassword (params : ConnectionParams) : Except DbError (Text × Text) :=
  match params.credentials with
  | .userPassword username password => .ok (username,password)
  | _ => .error (.new .unsupported
      ("this driver supports user-name and password authentication only; external, wallet and token " ++
      "authentication are upstream gaps"))

def authMode : SessionRole → AuthMode
  | .normal => .default
  | .sysDba => .sysDba
  | .sysOper => .sysOper

def statementCacheSize (params : ConnectionParams) : Nat :=
  match params.extensions extStatementCacheSize with
  | some (.integer size) => size.toNat
  | _ => 0

def certificateRequest (text : Text) (descriptor : upstream.Descriptor) : ServerCertificateRequest :=
  (ServerCertificateRequest.scanConnectString text).mergedWith (.scanUpstreamDescriptor (upstream.render descriptor))

def buildConfig (params : ConnectionParams) : Except DbError (Prepared upstream) := do
  let text ← connectString params
  let descriptor ← upstream.parse text
  if params.tls = .required ∧ spellsTcps upstream descriptor = false then
    throw plaintextRefusal
  else
    let request := certificateRequest upstream text descriptor
    let warnings ← request.guard (params.extensions extAllowUnenforcedServerCertDn == some (.flag true))
    let location ← walletLocation params
    let password ← walletPassword params
    let credentials ← userPassword params
    return ⟨⟨descriptor,location,password,some credentials,authMode params.role,statementCacheSize params⟩,
      warnings,!request.isEmpty⟩

end

section
variable {upstream : Upstream} {params : ConnectionParams} {prepared : Prepared upstream}

theorem buildConfig_spells (built : buildConfig upstream params = .ok prepared) (required : params.tls = .required) :
    spellsTcps upstream prepared.config.descriptor = true := by
  obtain ⟨text,_,parsed⟩ := bind_ok built
  obtain ⟨descriptor,_,checked⟩ := bind_ok parsed
  split_ifs at checked with refused
  obtain ⟨warnings,_,guarded⟩ := bind_ok checked
  obtain ⟨location,_,located⟩ := bind_ok guarded
  obtain ⟨password,_,unlocked⟩ := bind_ok located
  obtain ⟨credentials,_,done⟩ := bind_ok unlocked
  cases done
  simpa [required] using refused

namespace Nodes
variable {nodes : Nodes} {rest : Text}

theorem lower_leaf (name value : Text) (more : Nodes) : lower (leaf name value more).text =
    '(' :: (lower name ++ '=' :: (lower value ++ ')' :: lower more.text)) := by
  simp [text,lower]

theorem lower_node (name : Text) (inner more : Nodes) : lower (node name inner more).text =
    '(' :: (lower name ++ '=' :: (lower inner.text ++ ')' :: lower more.text)) := by
  simp [text,lower]

theorem not_mem_lower {text : Text} (plain : c.toNat < 65) : c ∉ lower text ↔ c ∉ text := by
  simp [lower,toLower_eq_iff plain]

theorem not_mem_of_all {text : Text} {p : Char → Bool} (plain : c.toNat < 65) (all : text.all p = true) (out : p c = false) :
    c ∉ lower text :=
  (not_mem_lower plain).mpr fun member => Bool.eq_false_iff.mp out (all_eq_true.mp all _ member)

theorem behind {front more : Text} (absent : '(' ∉ front) (found : tcpsNode <:+: front ++ more) : tcpsNode <:+: more :=
  Subword.infix_behind absent found

/-- A node whose text starts like the one looked for has its name. -/
theorem named {name more : Text} (absent : '=' ∉ lower name) (starts : tcpsNode <+: '(' :: (lower name ++ '=' :: more)) :
    lower name = "protocol".toList ∧ "tcps)".toList <+: more := by
  obtain ⟨same,starts⟩ := Subword.prefix_cut (by decide) absent
    (show "protocol".toList ++ '=' :: "tcps)".toList <+: lower name ++ '=' :: more from (cons_prefix_cons.mp starts).2)
  exact ⟨same.symm,starts⟩

theorem spelled (plain : nodes.isPlain = true) (found : tcpsNode <:+: lower nodes.text ++ rest) :
    (∃ protocol ∈ nodes.protocols, lower protocol = "tcps".toList) ∨ tcpsNode <:+: rest := by
  -- the text is that of a node, or stands behind the node's name
  induction nodes generalizing rest with
  | nil => exact .inr found
  | leaf name value more ih =>
    simp only [isPlain,Bool.and_eq_true] at plain
    obtain ⟨⟨names,values⟩,others⟩ := plain
    have unopened : '(' ∉ lower name := not_mem_of_all (by decide) names rfl
    have opens : '(' ∉ lower value := not_mem_of_all (by decide) values rfl
    have closes : ')' ∉ lower value := not_mem_of_all (by decide) values rfl
    rw [lower_leaf] at found
    simp only [cons_append,append_assoc] at found
    obtain here | later := infix_cons_iff.mp found
    · obtain ⟨named,here⟩ := named (not_mem_of_all (by decide) names rfl) here
      have valued := (Subword.prefix_cut (by decide) closes
        (show "tcps".toList ++ ')' :: [] <+: lower value ++ ')' :: (lower more.text ++ rest) from here)).1
      exact .inl ⟨value,by simp [protocols,named],valued.symm⟩
    · have found := behind (show '(' ∉ lower name ++ '=' :: (lower value ++ [')']) by simp [unopened,opens])
        (by simpa using later)
      refine (ih others found).imp_left fun ⟨protocol,member,tcps⟩ => ⟨protocol,?_,tcps⟩
      unfold protocols
      split
      · exact mem_cons_of_mem _ member
      · exact member
  | node name inner more ih ih' =>
    simp only [isPlain,Bool.and_eq_true] at plain
    obtain ⟨⟨names,inners⟩,others⟩ := plain
    have unopened : '(' ∉ lower name := not_mem_of_all (by decide) names rfl
    rw [lower_node] at found
    simp only [cons_append,append_assoc] at found
    obtain here | later := infix_cons_iff.mp found
    · have begins := (named (not_mem_of_all (by decide) names rfl) here).2
      cases inner with
      | nil => exact absurd (cons_prefix_cons.mp begins).1 (by decide)
      | leaf | node => exact absurd (cons_prefix_cons.mp begins).1 (by decide)
    · have found := behind (show '(' ∉ lower name ++ ['='] by simp [unopened]) (by simpa using later)
      obtain ⟨protocol,member,tcps⟩ | found := ih inners found
      · exact .inl ⟨protocol,mem_append_left _ member,tcps⟩
      · have found := behind (show '(' ∉ [')'] by decide) found
        exact (ih' others found).imp_left fun ⟨protocol,member,tcps⟩ => ⟨protocol,mem_append_right _ member,tcps⟩

theorem spells (member : protocol ∈ nodes.protocols) (tcps : lower protocol = "tcps".toList) :
    tcpsNode <:+: lower nodes.text := by
  induction nodes with
  | nil => cases member
  | leaf name value more ih =>
    rw [lower_leaf]
    have later (member : protocol ∈ more.protocols) : tcpsNode <:+:
        ('(' :: (lower name ++ '=' :: (lower value ++ [')']))) ++ lower more.text := infix_append_of_infix_right (ih member)
    unfold protocols at member
    split at member
    · obtain rfl | member := mem_cons.mp member
      · rename_i named
        rw [named,tcps]
        exact ⟨[],lower more.text,rfl⟩
      · simpa using later member
    · simpa using later member
  | node name inner more ih ih' =>
    rw [lower_node]
    obtain member | member := mem_append.mp member
    · obtain ⟨before,after,same⟩ := ih member
      exact ⟨'(' :: (lower name ++ '=' :: before),after ++ ')' :: lower more.text,by simp [← same]⟩
    · obtain ⟨before,after,same⟩ := ih' member
      exact ⟨'(' :: (lower name ++ '=' :: (lower inner.text ++ ')' :: before)),after,by simp [← same]⟩

end Nodes

theorem spellsTcps_iff {descriptor : upstream.Descriptor} (regular : upstream.Regular descriptor) :
    spellsTcps upstream descriptor = true ↔ ∃ address ∈ upstream.addresses descriptor, address.isTcps := by
  rw [spellsTcps,Subword.find_isSome_iff]
  constructor
  · intro found
    rw [← append_nil (lower _)] at found
    obtain ⟨protocol,member,tcps⟩ | behind := Nodes.spelled regular.plain found
    · exact ⟨⟨protocol⟩,regular.owned protocol member,tcps⟩
    · exact absurd behind (by decide)
  · rintro ⟨address,member,tcps⟩
    exact Nodes.spells (upstream.renders descriptor address member) tcps

/-- The check reads the rendered text as a whole: some address is encrypted. All are exactly when
they agree. -/
theorem required_tls_encrypts_iff (built : buildConfig upstream params = .ok prepared) (required : params.tls = .required)
    (regular : upstream.Regular prepared.config.descriptor) :
    (∃ address ∈ upstream.addresses prepared.config.descriptor, address.isTcps) ∧
    ((∀ address ∈ upstream.addresses prepared.config.descriptor, address.isTcps) ↔
      ∀ address ∈ upstream.addresses prepared.config.descriptor,
        ∀ other ∈ upstream.addresses prepared.config.descriptor, lower address.protocol = lower other.protocol) := by
  obtain ⟨encrypted,listed,tcps⟩ := (spellsTcps_iff regular).mp (buildConfig_spells built required)
  refine ⟨⟨encrypted,listed,tcps⟩,fun all address member other also => ?_,fun agree address member => ?_⟩
  · exact (all address member).trans (all other also).symm
  · exact (agree address member encrypted listed).trans tcps

end

def addressNodes : List Address → Nodes
  | [] => .nil
  | address :: addresses => .node "ADDRESS".toList (.leaf "PROTOCOL".toList address.protocol .nil) (addressNodes addresses)

theorem addressNodes_protocols (addresses : List Address) :
    (addressNodes addresses).protocols = addresses.map Address.protocol := by
  induction addresses with
  | nil => rfl
  | cons address addresses ih =>
    rw [addressNodes,Nodes.protocols,ih]
    rfl

def plainUpstream : Upstream where
  Descriptor := List Address
  parse text := .ok ((valuesOf (lower text) "protocol".toList certDnTerminators).map Address.mk)
  addresses := id
  nodes := addressNodes
  renders addresses _ member := (addressNodes_protocols addresses).symm ▸ mem_map_of_mem member

def requiring (text : String) : ConnectionParams where
  endpoint := .connectString text.toList
  credentials := .userPassword "scott".toList "tiger".toList
  role := .normal
  tls := .required
  extensions := fun _ => none

def failover : ConnectionParams :=
  requiring "(DESCRIPTION=(ADDRESS_LIST=(ADDRESS=(PROTOCOL=TCPS)(HOST=a))(ADDRESS=(PROTOCOL=TCP)(HOST=b))))"

theorem failover_admits_plaintext : ∃ prepared, buildConfig plainUpstream failover = .ok prepared ∧
    ∃ address ∈ plainUpstream.addresses prepared.config.descriptor, address.protocol = "tcp".toList := by
  refine ⟨_,rfl,⟨"tcp".toList⟩,?_,rfl⟩
  decide

def twoAddresses : ConnectionParams :=
  requiring "(DESCRIPTION=(ADDRESS_LIST=(ADDRESS=(PROTOCOL=TCPS)(HOST=a))(ADDRESS=(PROTOCOL=tcps)(HOST=b))))"

theorem both_addresses_are_encrypted : ∃ prepared, buildConfig plainUpstream twoAddresses = .ok prepared ∧
    (plainUpstream.addresses prepared.config.descriptor).length = 2 ∧
    ∀ address ∈ plainUpstream.addresses prepared.config.descriptor, address.isTcps := by
  refine ⟨_,rfl,rfl,(@required_tls_encrypts_iff plainUpstream twoAddresses _ rfl rfl ⟨?_,?_⟩).2.mpr ?_⟩
  · decide
  · decide
  · decide

end OracleThin
end Reldex
