import Throne.Core.Netip
import Throne.Lib.NfTables

/-!
# The ruleset of the guard

`parseConfig` of `src/core/internal/guard/guard.go` behind `json.Unmarshal`, and `newRuleset` of
`src/core/internal/guard/nftables_linux.go` with what it is put together from. Names are the bytes they are. What
builds a set of addresses from prefixes (`netipx.IPSetBuilder`) is a parameter, and the constants of the kernel are
its own. The paths of other programs in the configuration do not enter the ruleset, and are left out.
-/

namespace Throne.Core.Guard

open Lib.Texts Lib.BitBytes Lib.NfTables

/-! ## The configuration -/

/-- `GID`. -/
def GID : UInt32 := 0x7448524F

/-- `Config`, as the line on stdin decodes. -/
structure RawConfig where
  AllowLAN : Bool
  TunName : Bytes
  TunCIDRs : List String
  BridgeName : Bytes
  APIPort : UInt16
  KeepStates : Bool

/-- `config`. -/
structure Config where
  AllowLAN : Bool
  TunName : Bytes
  TunPrefixes : List Prefix
  BridgeName : Bytes
  APIPort : UInt16
  KeepStates : Bool

/-- `Error`: its code, and the format and the argument of its message. -/
structure GuardError where
  code : String
  format : String
  arg : Bytes

/-- The code of every error in the configuration. -/
def CodeConfig : String := "config"

/-- `interfaceNamePattern`. -/
def interfaceNamePattern (name : Bytes) : Bool :=
  name.all fun byte => (65 ≤ byte && byte ≤ 90) || (97 ≤ byte && byte ≤ 122) || (48 ≤ byte && byte ≤ 57) || byte == 46 || byte == 95 || byte == 45

/-- The prefixes of the tun, without the blank ones; the first that does not parse is the error. -/
def parsePrefixes (net : Netip) : List String → Except GuardError (List Prefix)
  | [] => .ok []
  | cidr :: cidrs =>
    if trimSpace cidr = "" then parsePrefixes net cidrs
    else
      match net.parsePrefix (trimSpace cidr) with
      | none => .error ⟨CodeConfig, "invalid tun address %q", cidr.toUTF8.toList⟩
      | some parsed => (parsePrefixes net cidrs).map fun rest => parsed :: rest

/-- `raw` is what the line decodes to, or the decoder's error. -/
def parseConfig (net : Netip) (raw : Except Bytes RawConfig) : Except GuardError Config :=
  match raw with
  | .error err => .error ⟨CodeConfig, "invalid configuration: %v", err⟩
  | .ok raw =>
    if raw.TunName.length > 15 || !interfaceNamePattern raw.TunName then
      .error ⟨CodeConfig, "invalid tun name %q", raw.TunName⟩
    else if raw.BridgeName.length > 12 || !interfaceNamePattern raw.BridgeName then
      .error ⟨CodeConfig, "invalid bridge name %q", raw.BridgeName⟩
    else
      (parsePrefixes net raw.TunCIDRs).map fun prefixes =>
        { AllowLAN := raw.AllowLAN
          TunName := raw.TunName
          TunPrefixes := prefixes
          BridgeName := raw.BridgeName
          APIPort := raw.APIPort
          KeepStates := raw.KeepStates }

/-! ## Prefixes -/

/-- The prefix of four octets. -/
def prefix4 (a b c d bits : Nat) (h : bits ≤ 32) : Prefix := ⟨.v4 (BitVec.ofNat 32 (((a * 256 + b) * 256 + c) * 256 + d)), bits, h⟩

/-- The prefix of a first group, and zeros behind it. -/
def prefix6 (group bits : Nat) (h : bits ≤ 128) : Prefix := ⟨.v6 (BitVec.ofNat 128 (group * 2 ^ 112)), bits, h⟩

/-- The ranges of the LAN in IPv4, as the source lists them. -/
def lanPrefixes4 : List Prefix :=
  [prefix4 10 0 0 0 8 (by decide), prefix4 172 16 0 0 12 (by decide), prefix4 192 168 0 0 16 (by decide),
    prefix4 169 254 0 0 16 (by decide), prefix4 224 0 0 0 4 (by decide), prefix4 255 255 255 255 32 (by decide)]

/-- The ranges of the LAN in IPv6. -/
def lanPrefixes6 : List Prefix :=
  [prefix6 0xfe80 10 (by decide), prefix6 0xfc00 7 (by decide), prefix6 0xff00 8 (by decide)]

/-! The prefixes in ascending order. -/

def lanSorted4 : List Prefix :=
  [prefix4 10 0 0 0 8 (by decide), prefix4 169 254 0 0 16 (by decide), prefix4 172 16 0 0 12 (by decide),
    prefix4 192 168 0 0 16 (by decide), prefix4 224 0 0 0 4 (by decide), prefix4 255 255 255 255 32 (by decide)]

def lanSorted6 : List Prefix :=
  [prefix6 0xfc00 7 (by decide), prefix6 0xfe80 10 (by decide), prefix6 0xff00 8 (by decide)]

/-- The ports LAN traffic may not go to. -/
def lanDNSPorts : List UInt16 := [53, 853]

/-- `Addr.AsSlice`. -/
def AsSlice (a : Addr) : Bytes := bytesOf (a.bitLen / 8) a.toNat

/-- `Addr.Next`, if it is valid. -/
def Next (a : Addr) : Option Addr := if a.toNat + 1 < 2 ^ a.bitLen then some (a.withNat (a.toNat + 1)) else none

/-- `IPSetBuilder` with some prefixes added, and the `Ranges` of its set: their first and last addresses. -/
structure IPSets where
  ranges : List Prefix → Option (List (Addr × Addr))

/-- `prefixElements`; the only error is the builder's. -/
def prefixElements (net : IPSets) (prefixes : List Prefix) : Option (List SetElement) :=
  (net.ranges prefixes).map fun ranges =>
    ranges.flatMap fun rng =>
      { key := AsSlice rng.1 } :: match Next rng.2 with
        | none => []
        | some finish => [{ key := AsSlice finish, intervalEnd := true }]

/-! ## Matches -/

def ctLabelBit : Nat := 127
def ctDirectionReply : UInt8 := 1
def NFPROTO_IPV4 : UInt8 := 2
def NFPROTO_IPV6 : UInt8 := 10
def IPPROTO_IGMP : UInt8 := 2
def IPPROTO_TCP : UInt8 := 6
def IPPROTO_UDP : UInt8 := 17
def IPPROTO_ICMPV6 : UInt8 := 58

/-- `binaryutil.BigEndian.PutUint16`. -/
def putUint16 (n : UInt16) : Bytes := bytesOf 2 n.toNat

/-- Register 1 is `data`. -/
def cmpEq (data : Bytes) : Expr := .Cmp .Eq 1 data

/-- Bytes of a header into register 1. -/
def loadPayload (base : PayloadBase) (offset len : Nat) : Expr := .Payload base offset len 1

/-- A property of the packet is `data`. -/
def matchMeta (key : MetaKey) (data : Bytes) : List Expr := [.Meta key 1, cmpEq data]

/-- The name of an interface, padded with zeros, so that nothing may follow it. -/
def matchIfname (key : MetaKey) (name : Bytes) : List Expr := matchMeta key (name.take IFNAMSIZ ++ List.replicate (IFNAMSIZ - name.length) 0)

/-- A port of the transport header: the source at 0, the destination at 2. -/
def matchPort (offset : Nat) (port : UInt16) : List Expr := [loadPayload .TransportHeader offset 2, cmpEq (putUint16 port)]

/-- Bytes of a header are in a set. -/
def matchSet (base : PayloadBase) (offset len : Nat) (set : NftSet) : List Expr := [loadPayload base offset len, .Lookup 1 set.name set.id]

/-- The packet goes against the direction its flow was opened in. -/
def matchReply : List Expr := [.Ct .DIRECTION 1 false, cmpEq [ctDirectionReply]]

/-- The labels with the bit `ctLabelBit` alone. -/
def ctLabel : Bytes := (List.replicate 16 0).set (ctLabelBit / 8) (1 <<< UInt8.ofNat (ctLabelBit % 8))

/-- The flow carries the label of the guard. -/
def matchLabel : List Expr := [.Ct .LABELS 1 false, .Bitwise 1 1 16 ctLabel (List.replicate 16 0), .Cmp .Neq 1 (List.replicate 16 0)]

/-- The flow gets the label of the guard. -/
def setLabel : List Expr := [.Immediate 1 ctLabel, .Ct .LABELS 1 true]

/-! ## The ruleset -/

inductive ChainHook where
  | Postrouting
  | Forward
  deriving DecidableEq

/-- A base chain at a hook. -/
structure Chain where
  name : Text
  hook : ChainHook
  policy : VerdictKind

structure Rule where
  chain : Text
  exprs : List Expr

/-- What is queued for the kernel, in the order it was added. -/
structure NftRuleset where
  sets : List NftSet
  elems : List (List SetElement)
  chains : List Chain
  rules : List Rule

/-- An IP version with the places of its addresses in the network header, and the set of its LAN. -/
structure LanFamily where
  nfproto : UInt8
  saddr : Nat
  daddr : Nat
  addrLen : Nat
  set : NftSet

namespace NftRuleset

variable (r : NftRuleset)

def addSet (set : NftSet) (elems : List SetElement) : NftRuleset :=
  { r with sets := r.sets ++ [set], elems := r.elems ++ [elems] }

/-- A chain drops what no rule of it decides. -/
def addChain (name : Text) (hook : ChainHook) : NftRuleset :=
  { r with chains := r.chains ++ [⟨name, hook, .Drop⟩] }

variable (chain : Text)

/-- A rule of matches and the verdict behind them. -/
def add (verdict : VerdictKind) (found : List (List Expr)) : NftRuleset :=
  { r with rules := r.rules ++ [⟨chain, found.flatten ++ [.Verdict verdict]⟩] }

def accept (found : List (List Expr)) : NftRuleset := r.add chain .Accept found

def drop (found : List (List Expr)) : NftRuleset := r.add chain .Drop found

/-- What goes through the tun or a bridge is accepted, a bridge by the beginning of its name. -/
def interfaces (cfg : Config) : NftRuleset :=
  let r :=
    if cfg.TunName ≠ [] then
      (r.accept chain [matchIfname .IIFNAME cfg.TunName]).accept chain [matchIfname .OIFNAME cfg.TunName]
    else r
  if cfg.BridgeName ≠ [] then
    (r.accept chain [matchMeta .IIFNAME cfg.BridgeName]).accept chain [matchMeta .OIFNAME cfg.BridgeName]
  else r

/-- LAN traffic: what goes to a DNS port is dropped first, the rest accepted. Forwarded packets must come from the LAN
too. -/
def lan (families : List LanFamily) (dnsPorts : NftSet) (forwarded : Bool) :
    NftRuleset :=
  let r := families.foldl (fun r family =>
    [IPPROTO_TCP, IPPROTO_UDP].foldl (fun r proto =>
      r.drop chain [matchMeta .NFPROTO [family.nfproto], matchMeta .L4PROTO [proto], matchSet .TransportHeader 2 2 dnsPorts,
          matchSet .NetworkHeader family.daddr family.addrLen family.set]) r) r
  families.foldl (fun r family =>
    let found := [matchMeta .NFPROTO [family.nfproto]]
    let found :=
      if forwarded then found ++ [matchSet .NetworkHeader family.saddr family.addrLen family.set] else found
    r.accept chain (found ++ [matchSet .NetworkHeader family.daddr family.addrLen family.set])) r

end NftRuleset

def lan4 : NftSet := ⟨1, "lan4".toList, 4, true⟩
def lan6 : NftSet := ⟨2, "lan6".toList, 16, true⟩
def lanDnsPorts : NftSet := ⟨3, "lan_dns_ports".toList, 2, false⟩

/-- The families of the LAN with their offsets of the addresses, IPv4 first. -/
def lanFamilies : List LanFamily := [⟨NFPROTO_IPV4, 12, 16, 4, lan4⟩, ⟨NFPROTO_IPV6, 8, 24, 16, lan6⟩]

/-- The elements of `lanDnsPorts`. -/
def lanPortElements : List SetElement := lanDNSPorts.map fun port => { key := putUint16 port }

/-- The sets of `newRuleset`, and the families that need them. Without LAN there is no set, and none is asked for. -/
def lanSets (net : IPSets) (cfg : Config) : Option (NftRuleset × List LanFamily) :=
  let r : NftRuleset := ⟨[], [], [], []⟩
  if cfg.AllowLAN then
    match prefixElements net lanPrefixes4 with
    | none => none
    | some elems4 =>
      match prefixElements net lanPrefixes6 with
      | none => none
      | some elems6 =>
        some (((r.addSet lan4 elems4).addSet lan6 elems6).addSet lanDnsPorts lanPortElements, lanFamilies)
  else some (r, [])

def postrouting : Text := "postrouting".toList
def forward : Text := "forward".toList

/-- The rules of `newRuleset` between its two chains. -/
def postroutingRules (order : ByteOrder) (cfg : Config) (lan : List LanFamily) (r : NftRuleset) : NftRuleset :=
  let v4 := matchMeta .NFPROTO [NFPROTO_IPV4]
  let v6 := matchMeta .NFPROTO [NFPROTO_IPV6]
  let udp := matchMeta .L4PROTO [IPPROTO_UDP]
  let icmpv6 := matchMeta .L4PROTO [IPPROTO_ICMPV6]
  let r := r.accept postrouting [matchIfname .OIFNAME [108, 111]]
  let r := r.interfaces postrouting cfg
  let r := r.accept postrouting [matchLabel]
  let r := r.accept postrouting [matchMeta .SKGID (order.putUint32 GID), setLabel]
  let r := r.accept postrouting [v4, udp, matchPort 0 68, matchPort 2 67]
  let r := r.accept postrouting [v6, udp, matchPort 0 546, matchPort 2 547]
  let r := r.accept postrouting [v6, icmpv6, [loadPayload .TransportHeader 0 1, .Range .Eq 1 [130] [137]]]
  let r := r.accept postrouting [v6, icmpv6, [loadPayload .TransportHeader 0 1, cmpEq [143]]]
  let r := r.accept postrouting [v4, matchMeta .L4PROTO [IPPROTO_IGMP]]
  let r :=
    if cfg.APIPort ≠ 0 then
      r.accept postrouting [matchMeta .L4PROTO [IPPROTO_TCP], matchPort 0 cfg.APIPort, matchReply]
    else r
  r.lan postrouting lan lanDnsPorts false

/-- The ruleset of the guard: one chain for what leaves the machine, one for what it forwards. -/
def newRuleset (net : IPSets) (order : ByteOrder) (cfg : Config) : Option NftRuleset :=
  (lanSets net cfg).map fun (r, lan) =>
    let r := postroutingRules order cfg lan (r.addChain postrouting .Postrouting)
    let r := r.addChain forward .Forward
    let r := r.interfaces forward cfg
    r.lan forward lan lanDnsPorts true

/-- What the kernel does with a packet at a hook, when the ruleset is queued. -/
def NftRuleset.accepts (r : NftRuleset) (order : ByteOrder) (hook : ChainHook) (s : State) : Bool :=
  (r.chains.filter fun chain => chain.hook == hook).all fun chain =>
    evalChain ⟨order, r.sets.zip r.elems⟩ chain.policy ((r.rules.filter fun rule => rule.chain == chain.name).map Rule.exprs) s == .Accept

end Throne.Core.Guard
