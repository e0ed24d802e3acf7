import Throne.Core.Guard.Ruleset

/-!
# What the guard lets out

The policy of the Linux guard in the terms of headers, flows and interfaces. A header is read field by field, so that
the offsets of the ruleset come out of the widths of the fields. The sets of addresses are documented as far as the
ruleset rests on them, and their elements hold what the sets hold: `elements_hold`.
-/

namespace Throne.Core.Guard

open Lib.Texts Lib.BitBytes Lib.NfTables

/-! ## Headers -/

/-- The fields of the given widths in front of a header, when they are all there. -/
def fields : List Nat → Bytes → Option (List Bytes)
  | [], _ => some []
  | width :: widths, bytes =>
    if width ≤ bytes.length then (fields widths (bytes.drop width)).map fun rest => bytes.take width :: rest else none

/-- Version and length, service, total length, identification, fragment, time to live, protocol, checksum, source,
destination. -/
def ipv4Header : List Nat := [1, 1, 2, 2, 2, 1, 1, 2, 4, 4]

/-- Version, class and flow, payload length, next header, hop limit, source, destination. -/
def ipv6Header : List Nat := [4, 2, 1, 1, 16, 16]

/-- `AddrFromSlice`, of four bytes or sixteen. -/
def addrFromSlice (bytes : Bytes) : Addr :=
  if bytes.length = 4 then .v4 (BitVec.ofNat 32 (valueOf bytes)) else .v6 (BitVec.ofNat 128 (valueOf bytes))

section

variable (p : Packet)

/-- Source and destination. -/
def endpoints : Option (Addr × Addr) :=
  if p.nfproto = NFPROTO_IPV4 then
    match fields ipv4Header p.network with
    | some [_, _, _, _, _, _, _, _, source, destination] => some (addrFromSlice source, addrFromSlice destination)
    | _ => none
  else if p.nfproto = NFPROTO_IPV6 then
    match fields ipv6Header p.network with
    | some [_, _, _, _, source, destination] => some (addrFromSlice source, addrFromSlice destination)
    | _ => none
  else none

/-- The first field of a TCP or UDP header. -/
def sourcePort : Option Nat :=
  match p.transport.bind (fields [2]) with
  | some [port] => some (valueOf port)
  | _ => none

/-- The second one. -/
def destinationPort : Option Nat :=
  match p.transport.bind (fields [2, 2]) with
  | some [_, port] => some (valueOf port)
  | _ => none

/-- The type of an ICMPv6 message. -/
def messageType : Option Nat :=
  match p.transport.bind (fields [1]) with
  | some [type] => some (valueOf type)
  | _ => none

/-! ## The policy -/

/-- The packet has an interface of that kind, whose name has the property. -/
def Through (name : Option IfName) (P : Bytes → Prop) : Prop := ∃ i, name = some i ∧ P i.bytes

/-- In or out by the tun or by an interface of the bridge. -/
def Permitted (cfg : Config) (p : Packet) : Prop :=
  (cfg.TunName ≠ [] ∧ (Through p.iif (· = cfg.TunName) ∨ Through p.oif (· = cfg.TunName))) ∨
    cfg.BridgeName ≠ [] ∧ (Through p.iif (cfg.BridgeName <+: ·) ∨ Through p.oif (cfg.BridgeName <+: ·))

/-- The flow has the label of the guard, the last bit of its labels. -/
def Labelled : Prop := ∃ ct, p.ct = some ct ∧ (ct.labels.getD 15 0).toNat.testBit 7 = true

def IsReply : Prop := ∃ ct, p.ct = some ct ∧ ct.direction = ctDirectionReply

/-- A client's DHCP request. -/
def DhcpRequest : Prop := p.nfproto = NFPROTO_IPV4 ∧ p.l4proto = some IPPROTO_UDP ∧ sourcePort p = some 68 ∧ destinationPort p = some 67

def Dhcpv6Request : Prop := p.nfproto = NFPROTO_IPV6 ∧ p.l4proto = some IPPROTO_UDP ∧ sourcePort p = some 546 ∧ destinationPort p = some 547

/-- Multicast listeners, routers and neighbours. -/
def LinkMessage : Prop :=
  p.nfproto = NFPROTO_IPV6 ∧ p.l4proto = some IPPROTO_ICMPV6 ∧ ∃ type, messageType p = some type ∧ (130 ≤ type ∧ type ≤ 137 ∨ type = 143)

def Igmp : Prop := p.nfproto = NFPROTO_IPV4 ∧ p.l4proto = some IPPROTO_IGMP

/-- An answer of the API. -/
def ApiReply (cfg : Config) (p : Packet) : Prop :=
  cfg.APIPort ≠ 0 ∧ p.l4proto = some IPPROTO_TCP ∧ sourcePort p = some cfg.APIPort.toNat ∧ IsReply p

def InLan (a : Addr) : Prop := ∃ range ∈ lanPrefixes4 ++ lanPrefixes6, range.Contains a

def FromLan : Prop := ∃ source destination, endpoints p = some (source, destination) ∧ InLan source
def ToLan : Prop := ∃ source destination, endpoints p = some (source, destination) ∧ InLan destination

/-- DNS, plain or over TLS. -/
def Dns : Prop := (p.l4proto = some IPPROTO_TCP ∨ p.l4proto = some IPPROTO_UDP) ∧ (destinationPort p = some 53 ∨ destinationPort p = some 853)

end

/-- What may leave. -/
def LetsOut (cfg : Config) (p : Packet) : Prop :=
  Through p.oif (· = [108, 111]) ∨ Permitted cfg p ∨ Labelled p ∨ p.skgid = some GID ∨ DhcpRequest p ∨
    Dhcpv6Request p ∨ LinkMessage p ∨ Igmp p ∨ ApiReply cfg p ∨ cfg.AllowLAN = true ∧ ToLan p ∧ ¬Dns p

/-- What may pass through. -/
def LetsThrough (cfg : Config) (p : Packet) : Prop := Permitted cfg p ∨ cfg.AllowLAN = true ∧ FromLan p ∧ ToLan p ∧ ¬Dns p

/-! ## The elements of a set of addresses -/

/-- What is documented of a set built from prefixes: its ranges hold the addresses of the prefixes, and they are as
few as can be, so that no two of a family overlap or touch. -/
structure Documented (net : IPSets) (prefixes : List Prefix) (ranges : List (Addr × Addr)) : Prop where
  built : net.ranges prefixes = some ranges
  ordered : ∀ rng ∈ ranges, rng.1.is4 = rng.2.is4 ∧ rng.1.toNat ≤ rng.2.toNat
  holds : ∀ a : Addr, (∃ rng ∈ ranges, rng.1.is4 = a.is4 ∧ rng.1.toNat ≤ a.toNat ∧ a.toNat ≤ rng.2.toNat) ↔ ∃ range ∈ prefixes, range.Contains a
  fewest : ∀ rng ∈ ranges, ∀ other ∈ ranges, rng.1.is4 = other.1.is4 → rng = other ∨ rng.2.toNat + 1 < other.1.toNat ∨ other.2.toNat + 1 < rng.1.toNat

section Elements

theorem bitLen_cases (a : Addr) : a.is4 = true ∧ a.bitLen = 32 ∨ a.is4 = false ∧ a.bitLen = 128 := by
  cases a with
  | v4 value => exact .inl ⟨rfl, rfl⟩
  | v6 value => exact .inr ⟨rfl, rfl⟩

theorem length_AsSlice (a : Addr) : (AsSlice a).length = a.bitLen / 8 := length_bytesOf _ _

theorem valueOf_AsSlice (a : Addr) : valueOf (AsSlice a) = a.toNat := by
  refine valueOf_bytesOf ?_
  have hlt := a.toNat_lt
  rcases bitLen_cases a with ⟨-, hbits⟩ | ⟨-, hbits⟩
  all_goals
    rw [hbits] at hlt ⊢
    exact hlt

/-- Keys of one length are addresses of one family. -/
theorem length_AsSlice_iff (a b : Addr) : (AsSlice a).length = (AsSlice b).length ↔ a.is4 = b.is4 := by
  rw [length_AsSlice, length_AsSlice]
  rcases bitLen_cases a with ⟨ha, hba⟩ | ⟨ha, hba⟩ <;> rcases bitLen_cases b with ⟨hb, hbb⟩ | ⟨hb, hbb⟩ <;> rw [ha, hb, hba, hbb] <;> decide

theorem Next_some {a finish : Addr} (h : Next a = some finish) : finish.is4 = a.is4 ∧ finish.toNat = a.toNat + 1 := by
  rw [Next] at h
  split at h
  · next hlt =>
    cases h
    refine ⟨?_, (a.withNat_facts hlt).1⟩
    cases a <;> rfl
  · cases h

theorem Next_isSome {a b : Addr} (hfam : a.is4 = b.is4) (h : a.toNat < b.toNat) : ∃ finish, Next a = some finish := by
  have hlt := b.toNat_lt
  have hbits : b.bitLen = a.bitLen := by
    rcases bitLen_cases a with ⟨ha, hba⟩ | ⟨ha, hba⟩ <;> rcases bitLen_cases b with ⟨hb, hbb⟩ | ⟨hb, hbb⟩
    · rw [hba, hbb]
    · rw [ha, hb] at hfam
      cases hfam
    · rw [ha, hb] at hfam
      cases hfam
    · rw [hba, hbb]
  rw [hbits] at hlt
  rw [Next, if_pos (by omega)]
  exact ⟨_, rfl⟩

/-- The elements: the first address of each range, and the one behind its last. -/
theorem mem_elements {net : IPSets} {prefixes : List Prefix} {ranges : List (Addr × Addr)} {elems : List SetElement}
    (hbuilt : net.ranges prefixes = some ranges) (h : prefixElements net prefixes = some elems) (e : SetElement) :
    e ∈ elems ↔ ∃ rng ∈ ranges, e = { key := AsSlice rng.1 } ∨
      ∃ finish, Next rng.2 = some finish ∧ e = { key := AsSlice finish, intervalEnd := true } := by
  rw [prefixElements, hbuilt, Option.map_some, Option.some.injEq] at h
  rw [← h, List.mem_flatMap]
  refine exists_congr fun rng => and_congr_right fun _ => ?_
  rw [List.mem_cons]
  refine or_congr_right ?_
  cases Next rng.2 with
  | none => exact ⟨(nomatch ·), fun ⟨_, hno, _⟩ => nomatch hno⟩
  | some finish =>
    rw [List.mem_singleton]
    constructor
    · exact fun heq => ⟨finish, rfl, heq⟩
    · rintro ⟨_, ⟨⟩, heq⟩
      exact heq

theorem intervalContains_iff (elems : List SetElement) (key : Bytes) :
    intervalContains elems key = true ↔ ∃ start ∈ elems, start.intervalEnd = false ∧
    start.key.length = key.length ∧ valueOf start.key ≤ valueOf key ∧
    ∀ e ∈ elems, e.intervalEnd = true → e.key.length = key.length → valueOf e.key ≤ valueOf key → valueOf e.key ≤ valueOf start.key := by
  rw [intervalContains, List.any_eq_true]
  refine exists_congr fun start => and_congr_right fun _ => ?_
  rw [Bool.and_eq_true, Bool.and_eq_true, Bool.and_eq_true, Bool.not_eq_true', decide_eq_true_eq, decide_eq_true_eq,
    List.all_eq_true, and_assoc, and_assoc]
  refine and_congr_right fun _ => and_congr_right fun _ => and_congr_right fun _ => forall₂_congr fun e _ => ?_
  rw [Bool.or_eq_true, Bool.or_eq_true, Bool.or_eq_true, Bool.not_eq_true', decide_eq_true_eq, decide_eq_true_eq, decide_eq_true_eq]
  cases e.intervalEnd with
  | false => exact ⟨fun _ => (nomatch ·), fun _ => .inl (.inl (.inl rfl))⟩
  | true =>
    constructor
    · rintro (((h | h) | h) | h) - hlen hle
      · cases h
      · exact absurd hlen h
      · omega
      · exact h
    · intro h
      by_cases hlen : e.key.length = key.length
      · by_cases hle : valueOf e.key ≤ valueOf key
        · exact .inr (h rfl hlen hle)
        · exact .inl (.inr (by omega))
      · exact .inl (.inl (.inr hlen))

/-- The elements of prefixes hold exactly the addresses of the prefixes. -/
theorem elements_hold {net : IPSets} {prefixes : List Prefix} {ranges : List (Addr × Addr)} {elems : List SetElement}
    (hdoc : Documented net prefixes ranges) (h : prefixElements net prefixes = some elems) (a : Addr) :
    intervalContains elems (AsSlice a) = true ↔ ∃ range ∈ prefixes, range.Contains a := by
  rw [← hdoc.holds, intervalContains_iff]
  constructor
  · rintro ⟨start, hstart, hopen, hlen, hle, hclosed⟩
    obtain ⟨rng, hrng, rfl | ⟨finish, -, rfl⟩⟩ := (mem_elements hdoc.built h start).1 hstart
    · rw [length_AsSlice_iff] at hlen
      rw [valueOf_AsSlice, valueOf_AsSlice] at hle
      obtain ⟨hfam, hordered⟩ := hdoc.ordered rng hrng
      refine ⟨rng, hrng, hlen, hle, ?_⟩
      by_contra hbehind
      -- the range ends before the address, and its end would have to be at its start
      obtain ⟨finish, hfinish⟩ := Next_isSome (hfam.symm.trans hlen) (by omega : rng.2.toNat < a.toNat)
      obtain ⟨hfamily, hvalue⟩ := Next_some hfinish
      have hend := hclosed _ ((mem_elements hdoc.built h _).2 ⟨rng, hrng, .inr ⟨finish, hfinish, rfl⟩⟩) rfl
        ((length_AsSlice_iff _ _).2 (hfamily.trans (hfam.symm.trans hlen)))
        (by rw [valueOf_AsSlice, valueOf_AsSlice]; omega)
      rw [valueOf_AsSlice, valueOf_AsSlice] at hend
      omega
    · cases hopen
  · rintro ⟨rng, hrng, hfam, hfirst, hlast⟩
    refine ⟨_, (mem_elements hdoc.built h _).2 ⟨rng, hrng, .inl rfl⟩, rfl, (length_AsSlice_iff _ _).2 hfam,
      by rw [valueOf_AsSlice, valueOf_AsSlice]; exact hfirst, ?_⟩
    intro e he hend hlen hle
    obtain ⟨other, hother, rfl | ⟨finish, hfinish, rfl⟩⟩ := (mem_elements hdoc.built h e).1 he
    · cases hend
    · obtain ⟨hfamily, hvalue⟩ := Next_some hfinish
      rw [length_AsSlice_iff] at hlen
      rw [valueOf_AsSlice, valueOf_AsSlice] at hle
      rw [valueOf_AsSlice, valueOf_AsSlice]
      have hsame : rng.1.is4 = other.1.is4 := hfam.trans (hlen.symm.trans (hfamily.trans (hdoc.ordered other hother).1.symm))
      have hordered := (hdoc.ordered other hother).2
      rcases hdoc.fewest rng hrng other hother hsame with rfl | hbehind | hbefore <;> omega

end Elements

end Throne.Core.Guard
