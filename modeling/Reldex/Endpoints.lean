import Reldex.ConnectionConfig

/-! The connect strings the driver builds from plain parts can be read back, so no part reaches
into another one. -/
namespace Reldex.OracleThin
open Option
open List

structure Target where
  tls : Bool
  host : Text
  port : Nat
  name : Text

def cut (separator : Char) (text : Text) : Text × Text :=
  (text.takeWhile (· ≠ separator),text.dropWhile (· ≠ separator))

theorem cut_append (absent : separator ∉ before) (stops : rest.head? = some separator) :
    cut separator (before ++ rest) = (before,rest) := by
  obtain ⟨more,rfl⟩ := head?_eq_some_iff.mp stops
  have passed : ∀ c ∈ before, decide (c ≠ separator) = true := by
    intro c member
    exact decide_eq_true (ne_of_mem_of_not_mem member absent)
  rw [cut,takeWhile_append_of_pos passed,dropWhile_append_of_pos passed]
  simp

/-- The name stands behind the first slash and the port behind the last colon before it. -/
def readAddress (tls : Bool) (address : Text) : Target :=
  let (authority,service) := cut '/' address
  let (port,host) := cut ':' authority.reverse
  ⟨tls,host.tail.reverse,Nat.ofDigitChars 10 port.reverse 0,service.tail⟩

def readEasyConnect (text : Text) : Target :=
  if "tcps://".toList.isPrefixOf text then readAddress true (text.drop 7) else readAddress false text

def readNode (opening : String) (text : Text) : Option (Text × Text) :=
  if opening.toList.isPrefixOf text then some (cut ')' (text.drop opening.toList.length)) else none

def readSidDescriptor (text : Text) : Option Target := do
  let (protocol,rest) ← readNode "(DESCRIPTION=(ADDRESS=(PROTOCOL=" text
  let (host,rest) ← readNode ")(HOST=" rest
  let (port,rest) ← readNode ")(PORT=" rest
  let (sid,rest) ← readNode "))(CONNECT_DATA=(SID=" rest
  if rest = ")))".toList then some ⟨protocol = "TCPS".toList,host,Nat.ofDigitChars 10 port 0,sid⟩ else none

theorem readNode_append (opening : String) (absent : ')' ∉ value) (stops : rest.head? = some ')') :
    readNode opening (opening.toList ++ (value ++ rest)) = some (value,rest) := by
  simp [readNode,cut_append absent stops]

theorem unbracketed_some (brackets : unbracketed value = some text) : value = '[' :: (text ++ [']']) := by
  unfold unbracketed at brackets
  split at brackets
  · rename_i rest
    split_ifs at brackets with closed
    cases brackets
    rw [dropLast_append_getLast? _ closed]
  · cases brackets

section
variable (plain : plainName value what building = .ok text)
include plain

theorem plainName_mem (member : c ∈ value) : allowedInName true c = true ∨ c = '[' ∨ c = ']' := by
  obtain ⟨rfl,allowed⟩ := plainName_eq plain
  cases brackets : unbracketed value with
  | none =>
    have inside := allowed c (by simpa [brackets] using member)
    exact .inl (by simp_all [allowedInName])
  | some text =>
    simp only [brackets,getD_some,isSome_some] at allowed
    rw [unbracketed_some brackets,mem_cons,mem_append,mem_singleton] at member
    rcases member with opening | inside | closing
    · exact .inr (.inl opening)
    · exact .inl (allowed c inside)
    · exact .inr (.inr closing)

theorem plainName_no_slash : '/' ∉ value := by
  intro member
  exact absurd (plainName_mem plain member) (by decide)

theorem plainName_no_paren : ')' ∉ text := by
  have := plainName_filter plain
  rw [filter_eq_nil_iff] at this
  exact fun member => this _ member rfl

end

theorem toDigits_no (c : Char) (other : c.isDigit = false) (n : Nat) : c ∉ Nat.toDigits 10 n := by
  intro member
  rw [Nat.isDigit_of_mem_toDigits (by decide) (by decide) member] at other
  cases other

theorem readAddress_append (tls : Bool) (slash : '/' ∉ host ++ ':' :: digits) (colon : ':' ∉ digits) (service : Text) :
    readAddress tls (host ++ ':' :: digits ++ '/' :: service) = ⟨tls,host,Nat.ofDigitChars 10 digits 0,service⟩ := by
  have parts : cut ':' (host ++ ':' :: digits).reverse = (digits.reverse,':' :: host.reverse) := by
    rw [reverse_append,reverse_cons,append_assoc]
    exact cut_append (by simpa using colon) rfl
  rw [readAddress,cut_append slash rfl]
  simp only [parts,tail_cons,reverse_reverse]

theorem plain_address (slash : '/' ∉ host ++ ':' :: digits) (colon : ':' ∉ digits) (filled : digits ≠ []) :
    ¬"tcps://".toList.isPrefixOf (host ++ ':' :: digits ++ '/' :: service) = true := by
  intro front
  obtain ⟨rest,same⟩ := isPrefixOf_iff_prefix.mp front
  have ends : (cut '/' ("tcps:".toList ++ '/' :: '/' :: rest)).1.getLast? = _ := congrArg (cut '/' · |>.1.getLast?) same
  rw [cut_append slash rfl,cut_append (by decide) rfl] at ends
  dsimp only at ends
  rw [getLast?_append_of_ne_nil _ (by simp),getLast?_cons_of_ne_nil filled] at ends
  exact colon (mem_of_getLast? ends.symm)

theorem readEasyConnect_easyConnect (built : easyConnect host port service tls = .ok text) :
    readEasyConnect text = ⟨tls,host,port.toNat,service⟩ := by
  obtain ⟨_,hosts,named⟩ := bind_ok built
  obtain ⟨_,_,done⟩ := bind_ok named
  have slash : '/' ∉ host ++ ':' :: Nat.toDigits 10 port.toNat := by
    simpa using ⟨plainName_no_slash hosts,toDigits_no '/' rfl port.toNat⟩
  have colon := toDigits_no ':' rfl port.toNat
  have back (tls : Bool) := readAddress_append tls slash colon service
  have plain := @plain_address _ _ service slash colon Nat.toDigits_ne_nil
  rw [Nat.ofDigitChars_ten_toDigits] at back
  have address : host ++ ":".toList ++ Nat.toDigits 10 port.toNat ++ "/".toList ++ service =
      host ++ ':' :: Nat.toDigits 10 port.toNat ++ '/' :: service := by simp
  rw [address] at done
  cases tls with
  | true =>
    cases done
    exact (if_pos (by simp)).trans (back true)
  | false =>
    cases done
    exact (if_neg plain).trans (back false)

theorem readSidDescriptor_sidEndpoint (built : sidEndpoint host port sid tls = .ok text) :
    readSidDescriptor text = some ⟨tls,(unbracketed host).getD host,port.toNat,(unbracketed sid).getD sid⟩ := by
  obtain ⟨plainHost,hosts,named⟩ := bind_ok built
  obtain ⟨plainSid,sids,done⟩ := bind_ok named
  rw [← (plainName_eq hosts).1,← (plainName_eq sids).1]
  have protocol : ')' ∉ (if tls then "TCPS" else "TCP").toList := by cases tls <;> decide
  cases done
  simp only [append_assoc,readSidDescriptor]
  refine bind_eq_some_iff.mpr ⟨_,readNode_append _ protocol rfl,?_⟩
  refine bind_eq_some_iff.mpr ⟨_,readNode_append _ (plainName_no_paren hosts) rfl,?_⟩
  refine bind_eq_some_iff.mpr ⟨_,readNode_append _ (toDigits_no ')' rfl port.toNat) rfl,?_⟩
  refine bind_eq_some_iff.mpr ⟨_,readNode_append _ (plainName_no_paren sids) rfl,?_⟩
  rw [Nat.ofDigitChars_ten_toDigits,if_pos rfl]
  cases tls <;> rfl

theorem plainName_plain (plain : plainName value what building = .ok text) (bare : unbracketed value = none) :
    value.all (allowedInName false) = true := by
  obtain ⟨rfl,allowed⟩ := plainName_eq plain
  simpa [bare] using allowed

theorem unbracketed_none (plain : name.all (allowedInName false) = true) : unbracketed name = none := by
  cases brackets : unbracketed name with
  | none => rfl
  | some text =>
    rw [unbracketed_some brackets,all_cons] at plain
    cases plain

/-- Where a call returns a text: the name is plain, the text is read back to its parts and other parts make
another text, if and only if the name stands in no brackets. Only the brackets of a host are lost in a
descriptor. -/
theorem endpoints_read_back_iff (host name text : Text) (port : UInt16) (tls : Bool) :
    (easyConnect host port name tls = .ok text →
      ((name.all (allowedInName false) = true ∧ (∀ c ∈ host, allowedInName true c = true ∨ c = '[' ∨ c = ']') ∧
        readEasyConnect text = ⟨tls,host,port.toNat,name⟩ ∧
        ∀ host' port' name' tls', easyConnect host' port' name' tls' = .ok text →
          host' = host ∧ port' = port ∧ name' = name ∧ tls' = tls) ↔ unbracketed name = none)) ∧
    (sidEndpoint host port name tls = .ok text →
      ((name.all (allowedInName false) = true ∧ text.filter isSyntax = "(=(=(=)(=)(=))(=(=)))".toList ∧
        readSidDescriptor text = some ⟨tls,(unbracketed host).getD host,port.toNat,name⟩ ∧
        ∀ host' port' name' tls', unbracketed name' = none → sidEndpoint host' port' name' tls' = .ok text →
          (unbracketed host').getD host' = (unbracketed host).getD host ∧ port' = port ∧ name' = name ∧ tls' = tls) ↔
        unbracketed name = none)) := by
  constructor
  · intro built
    refine ⟨fun holds => unbracketed_none holds.1,fun bare => ?_⟩
    obtain ⟨_,hosts,named⟩ := bind_ok built
    obtain ⟨_,names,_⟩ := bind_ok named
    have back := readEasyConnect_easyConnect built
    refine ⟨plainName_plain names bare,fun c => plainName_mem hosts,back,fun host' port' name' tls' other => ?_⟩
    rw [readEasyConnect_easyConnect other,Target.mk.injEq,UInt16.toNat_inj] at back
    exact ⟨back.2.1,back.2.2.1,back.2.2.2,back.1⟩
  · intro built
    refine ⟨fun holds => unbracketed_none holds.1,fun bare => ?_⟩
    obtain ⟨_,_,named⟩ := bind_ok built
    obtain ⟨_,names,_⟩ := bind_ok named
    have back := readSidDescriptor_sidEndpoint built
    rw [bare,getD_none] at back
    refine ⟨plainName_plain names bare,sidEndpoint_filter built,back,fun host' port' name' tls' bare' other => ?_⟩
    rw [readSidDescriptor_sidEndpoint other,bare',some_inj,Target.mk.injEq,UInt16.toNat_inj] at back
    exact ⟨back.2.1,back.2.2.1,back.2.2.2,back.1⟩

theorem ipv6_endpoint_reads_back : readSidDescriptor
    "(DESCRIPTION=(ADDRESS=(PROTOCOL=TCPS)(HOST=::1)(PORT=2484))(CONNECT_DATA=(SID=ORCL)))".toList =
      some ⟨true,"::1".toList,2484,"ORCL".toList⟩ :=
  (((endpoints_read_back_iff "[::1]".toList "ORCL".toList _ 2484 true).2 rfl).mpr rfl).2.2.1

/-- Names are checked as hosts are: a name in brackets is accepted with its colons, and as a SID it
makes the text of the name without them. -/
theorem bracketed_names_are_accepted : easyConnect "db".toList 1521 "[a:b]".toList false = .ok "db:1521/[a:b]".toList ∧
    sidEndpoint "db".toList 1521 "[ORCL]".toList false = sidEndpoint "db".toList 1521 "ORCL".toList false ∧
    (sidEndpoint "db".toList 1521 "ORCL".toList false).isOk = true := by
  refine ⟨rfl,rfl,rfl⟩

end Reldex.OracleThin
