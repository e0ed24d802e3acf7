import Throne.Core.Guard.LetsOut

/-!
# The ruleset is the policy

Every match of the ruleset tests one part of `LetsOut` and `LetsThrough`, and the rules of a chain put them together:
`guard_exact`.
-/

namespace Throne.Core.Guard

open Lib.Texts Lib.BitBytes Lib.NfTables List

/-! ## Headers -/

variable {bytes : Bytes} {len offset : Nat}

section Headers

/-- The fields of the given widths, of enough bytes. -/
def cuts : List Nat → Bytes → List Bytes
  | [], _ => []
  | width :: widths, bytes => bytes.take width :: cuts widths (bytes.drop width)

/-- The fields of a header are there when its bytes are. -/
theorem fields_eq (widths : List Nat) (bytes : Bytes) :
    fields widths bytes = if widths.sum ≤ bytes.length then some (cuts widths bytes) else none := by
  induction widths generalizing bytes with
  | nil => rfl
  | cons width widths ih =>
    rw [fields, ih, sum_cons, length_drop]
    by_cases hwidth : width ≤ bytes.length
    · rw [if_pos hwidth]
      by_cases hrest : widths.sum ≤ bytes.length - width
      · rw [if_pos hrest, if_pos (by omega)]
        rfl
      · rw [if_neg hrest, if_neg (by omega)]
        rfl
    · rw [if_neg hwidth, if_neg (by omega)]

variable {p : Packet}

theorem endpoints_v4 (h : p.nfproto = NFPROTO_IPV4) : endpoints p = if 20 ≤ p.network.length then
    some (addrFromSlice ((p.network.drop 12).take 4), addrFromSlice ((p.network.drop 16).take 4)) else none := by
  rw [endpoints, if_pos h, fields_eq, show ipv4Header.sum = 20 from rfl]
  by_cases hlen : 20 ≤ p.network.length
  · rw [if_pos hlen, if_pos hlen]
    simp only [ipv4Header, cuts, drop_drop]
  · rw [if_neg hlen, if_neg hlen]

theorem endpoints_v6 (h : p.nfproto = NFPROTO_IPV6) : endpoints p = if 40 ≤ p.network.length then
    some (addrFromSlice ((p.network.drop 8).take 16), addrFromSlice ((p.network.drop 24).take 16)) else none := by
  rw [endpoints, if_neg (by rw [h]; decide), if_pos h, fields_eq, show ipv6Header.sum = 40 from rfl]
  by_cases hlen : 40 ≤ p.network.length
  · rw [if_pos hlen, if_pos hlen]
    simp only [ipv6Header, cuts, drop_drop]
  · rw [if_neg hlen, if_neg hlen]

theorem length_sliceAt {found : Bytes} (h : sliceAt bytes offset len = some found) : found.length = len := by
  rw [sliceAt] at h
  split at h
  · next hle =>
    cases h
    rw [length_take, length_drop]
    omega
  · cases h

theorem length_loadPayload {base : PayloadBase} (h : Lib.NfTables.loadPayload p base offset len = some bytes) : bytes.length = len := by
  cases base with
  | NetworkHeader => exact length_sliceAt h
  | TransportHeader =>
    obtain ⟨transport, -, hslice⟩ := Option.bind_eq_some_iff.1 h
    exact length_sliceAt hslice

/-- A field of the transport header is what a load of its bytes gives, if the fields before it are there. -/
theorem field_eq {p : Packet} {widths : List Nat} {read : Option Nat} (hsum : widths.sum = offset + len)
    (hnone : p.transport.bind (fields widths) = none → read = none)
    (hsome : ∀ bytes, p.transport.bind (fields widths) = some (cuts widths bytes) → read = some (valueOf ((bytes.drop offset).take len))) :
    read = (Lib.NfTables.loadPayload p .TransportHeader offset len).map valueOf := by
  rw [Lib.NfTables.loadPayload]
  cases htransport : p.transport with
  | none => exact hnone (by rw [htransport, Option.bind_none])
  | some bytes =>
    rw [htransport, Option.bind_some, fields_eq, hsum] at hnone hsome
    rw [Option.bind_some, sliceAt]
    by_cases hlen : offset + len ≤ bytes.length
    · rw [if_pos hlen] at hsome
      rw [if_pos hlen]
      exact hsome bytes rfl
    · rw [if_neg hlen] at hnone
      rw [if_neg hlen]
      exact hnone rfl

theorem sourcePort_eq (p : Packet) : sourcePort p = (Lib.NfTables.loadPayload p .TransportHeader 0 2).map valueOf :=
  field_eq (rfl : [2].sum = 0 + 2) (fun h => by rw [sourcePort, h]) fun _ h => by rw [sourcePort, h]; rfl

theorem destinationPort_eq (p : Packet) : destinationPort p = (Lib.NfTables.loadPayload p .TransportHeader 2 2).map valueOf :=
  field_eq (rfl : [2, 2].sum = 2 + 2) (fun h => by rw [destinationPort, h]) fun _ h => by
    rw [destinationPort, h]; rfl

theorem messageType_eq (p : Packet) : messageType p = (Lib.NfTables.loadPayload p .TransportHeader 0 1).map valueOf :=
  field_eq (rfl : [1].sum = 0 + 1) (fun h => by rw [messageType, h]) fun _ h => by rw [messageType, h]; rfl

theorem AsSlice_addrFromSlice (h : bytes.length = 4 ∨ bytes.length = 16) : AsSlice (addrFromSlice bytes) = bytes := by
  have hlt := valueOf_lt bytes
  have hback := bytesOf_valueOf bytes
  rw [addrFromSlice]
  rcases h with h | h
  · rw [if_pos h]
    rw [h] at hlt hback
    rw [AsSlice, Addr.bitLen, Addr.toNat, BitVec.toNat_ofNat, Nat.mod_eq_of_lt hlt, hback]
  · rw [if_neg (by omega)]
    rw [h] at hlt hback
    rw [AsSlice, Addr.bitLen, Addr.toNat, BitVec.toNat_ofNat, Nat.mod_eq_of_lt hlt, hback]

theorem is4_addrFromSlice (bytes : Bytes) : (addrFromSlice bytes).is4 = decide (bytes.length = 4) := by
  rw [addrFromSlice]
  split
  · next h => rw [decide_eq_true h, Addr.is4_v4]
  · next h => rw [decide_eq_false h, Addr.is4_v6]

end Headers

/-! ## Matches -/

variable {order : ByteOrder} {a b name : Bytes} {net : IPSets}

section Matching

variable {m : Machine}

theorem length_paddedName (name : Option IfName) : (paddedName name).length = IFNAMSIZ := by
  cases name with
  | none => exact length_replicate
  | some name =>
    have hshort := name.short
    rw [paddedName, length_append, length_replicate]
    omega

theorem length_putUint32 (order : ByteOrder) (n : UInt32) : (order.putUint32 n).length = 4 := by
  cases order with
  | little => rw [ByteOrder.putUint32, length_reverse, length_bytesOf]
  | big => exact length_bytesOf _ _

theorem putUint32_inj {n k : UInt32} (h : order.putUint32 n = order.putUint32 k) : n = k := by
  have hbytes : bytesOf 4 n.toNat = bytesOf 4 k.toNat := by
    cases order with
    | little => exact reverse_injective h
    | big => exact h
  have hvalue := congrArg valueOf hbytes
  rw [valueOf_bytesOf n.toNat_lt, valueOf_bytesOf k.toNat_lt] at hvalue
  exact UInt32.toNat_inj.1 hvalue

/-- How many bytes a key loads. -/
def metaLen : MetaKey → Nat
  | .NFPROTO => 1
  | .L4PROTO => 1
  | .IIFNAME => IFNAMSIZ
  | .OIFNAME => IFNAMSIZ
  | .SKGID => 4

variable {key : MetaKey}

theorem length_loadMeta {p : Packet} (h : loadMeta order p key = some bytes) : bytes.length = metaLen key := by
  cases key with
  | NFPROTO =>
    cases h
    rfl
  | L4PROTO =>
    obtain ⟨proto, -, rfl⟩ := Option.map_eq_some_iff.1 h
    rfl
  | IIFNAME | OIFNAME =>
    cases h
    exact length_paddedName _
  | SKGID =>
    obtain ⟨n, -, rfl⟩ := Option.map_eq_some_iff.1 h
    exact length_putUint32 order n

/-- A property is compared by as many bytes as the rule names. -/
theorem matches_meta {data : Bytes} (h : data.length ≤ metaLen key) : Matches m (matchMeta key data) fun p =>
      ∃ bytes, loadMeta m.order p key = some bytes ∧ bytes.take data.length = data :=
  (loads_meta key 1).tests (fun _ _ => length_loadMeta) (tests_cmp 1 (metaLen key) data h)

theorem matches_nfproto (proto : UInt8) : Matches m (matchMeta .NFPROTO [proto]) fun p => p.nfproto = proto := by
  have hlen : [proto].length ≤ metaLen .NFPROTO := Nat.le_refl 1
  refine (matches_meta hlen).congr fun p => ?_
  constructor
  · rintro ⟨_, ⟨⟩, heq⟩
    exact (List.cons.inj heq).1
  · rintro rfl
    exact ⟨_, rfl, rfl⟩

theorem matches_l4proto (proto : UInt8) : Matches m (matchMeta .L4PROTO [proto]) fun p => p.l4proto = some proto := by
  have hlen : [proto].length ≤ metaLen .L4PROTO := Nat.le_refl 1
  refine (matches_meta hlen).congr fun p => ?_
  constructor
  · rintro ⟨_, hload, heq⟩
    obtain ⟨found, hfound, rfl⟩ := Option.map_eq_some_iff.1 hload
    rw [hfound, (List.cons.inj heq).1]
  · intro hproto
    exact ⟨[proto], congrArg (Option.map fun proto => [proto]) hproto, rfl⟩

theorem matches_skgid (n : UInt32) : Matches m (matchMeta .SKGID (m.order.putUint32 n)) fun p => p.skgid = some n := by
  refine (matches_meta (Nat.le_of_eq (length_putUint32 _ _))).congr fun p => ?_
  constructor
  · rintro ⟨_, hload, heq⟩
    obtain ⟨found, hfound, rfl⟩ := Option.map_eq_some_iff.1 hload
    rw [length_putUint32, ← length_putUint32 m.order found, take_length] at heq
    rw [hfound, putUint32_inj heq]
  · intro hgid
    exact ⟨m.order.putUint32 n, congrArg (Option.map m.order.putUint32) hgid, take_length⟩

/-! ### Names of interfaces -/

/-- The key loads the name of that interface. -/
structure NameOf (key : MetaKey) (interface : Packet → Option IfName) : Prop where
  loads : ∀ order p, loadMeta order p key = some (paddedName (interface p))
  len : metaLen key = IFNAMSIZ

theorem nameOf_iif : NameOf .IIFNAME Packet.iif := ⟨fun _ _ => rfl, rfl⟩

theorem nameOf_oif : NameOf .OIFNAME Packet.oif := ⟨fun _ _ => rfl, rfl⟩

theorem takeWhile_padded (h : 0 ∉ name) (n : Nat) : (name ++ List.replicate n 0).takeWhile (fun byte => decide (byte ≠ 0)) = name := by
  rw [takeWhile_append_of_pos fun byte hbyte => decide_eq_true (ne_of_mem_of_not_mem hbyte h)]
  cases n with
  | zero => rw [replicate_zero, takeWhile_nil, append_nil]
  | succ n => rw [replicate_succ, takeWhile_cons_of_neg (by decide), append_nil]

/-- Names without zeros are told apart behind their padding. -/
theorem padded_inj {i j : Nat} (ha : 0 ∉ a) (hb : 0 ∉ b) (h : a ++ List.replicate i 0 = b ++ List.replicate j 0) : a = b := by
  rw [← takeWhile_padded ha i, h, takeWhile_padded hb j]

/-- What is in front of a padded name, and has no zero, is in front of the name. -/
theorem prefix_padded {n : Nat} (ha : 0 ∉ a) : a <+: b ++ List.replicate n 0 ↔ a <+: b := by
  constructor
  · intro h
    rcases Nat.le_total a.length b.length with hle | hle
    · exact prefix_of_prefix_length_le h (prefix_append _ _) hle
    · obtain ⟨rest, rfl⟩ := prefix_of_prefix_length_le (prefix_append _ _) h hle
      have hrest : rest <+: List.replicate n 0 := (prefix_append_right_inj b).1 h
      have hzeros : ∀ byte ∈ rest, byte = 0 := fun byte hbyte => eq_of_mem_replicate (hrest.subset hbyte)
      cases rest with
      | nil => rw [append_nil]
      | cons byte rest =>
        exact absurd (mem_append_right b (hzeros byte mem_cons_self ▸ mem_cons_self)) ha
  · exact fun h => h.trans (prefix_append _ _)

/-- An interface that is not there has the name of no bytes. -/
theorem padded_cases (interface : Option IfName) : ∃ (name : Bytes) (n : Nat), paddedName interface = name ++ List.replicate n 0 ∧ 0 ∉ name ∧
    ∀ P : Bytes → Prop, ¬P [] → (P name ↔ Through interface P) := by
  cases interface with
  | none =>
    refine ⟨[], IFNAMSIZ, rfl, not_mem_nil, fun P hno => ⟨fun h => absurd h hno, ?_⟩⟩
    rintro ⟨_, ⟨⟩, -⟩
  | some i =>
    refine ⟨i.bytes, _, rfl, i.plain, fun P _ => ⟨fun h => ⟨i, rfl, h⟩, ?_⟩⟩
    rintro ⟨_, ⟨⟩, h⟩
    exact h

/-- A padded name matches the interface of that name alone. -/
theorem matches_ifname {interface : Packet → Option IfName}
    (hkey : NameOf key interface) (hset : name ≠ []) (hshort : name.length ≤ 15) (hplain : 0 ∉ name) :
    Matches m (matchIfname key name) fun p => Through (interface p) (· = name) := by
  have hwhole : name.take IFNAMSIZ = name := take_of_length_le (by rw [IFNAMSIZ]; omega)
  have hlen : (name ++ List.replicate (IFNAMSIZ - name.length) 0).length = IFNAMSIZ := by
    rw [length_append, length_replicate, IFNAMSIZ]
    omega
  rw [matchIfname, hwhole]
  refine (matches_meta (by rw [hlen, hkey.len])).congr fun p => ?_
  obtain ⟨found, n, hpadded, hfound, hthrough⟩ := padded_cases (interface p)
  rw [← hthrough _ fun h => hset h.symm, hkey.loads, hlen]
  have htake : (paddedName (interface p)).take IFNAMSIZ = paddedName (interface p) := take_of_length_le (Nat.le_of_eq (length_paddedName _))
  constructor
  · rintro ⟨_, ⟨⟩, heq⟩
    rw [htake, hpadded] at heq
    exact padded_inj hfound hplain heq
  · intro heq
    refine ⟨_, rfl, ?_⟩
    have hsame : (found ++ List.replicate n 0).length = IFNAMSIZ := by rw [← hpadded, length_paddedName]
    rw [length_append, length_replicate, heq] at hsame
    rw [htake, hpadded, heq, ← hsame, Nat.add_sub_cancel_left]

/-- A bare name matches every interface whose name begins with it. -/
theorem matches_bridge {interface : Packet → Option IfName}
    (hkey : NameOf key interface) (hset : name ≠ []) (hshort : name.length ≤ 12) (hplain : 0 ∉ name) :
    Matches m (matchMeta key name) fun p => Through (interface p) (name <+: ·) := by
  refine (matches_meta (by rw [hkey.len, IFNAMSIZ]; omega)).congr fun p => ?_
  obtain ⟨found, n, hpadded, -, hthrough⟩ := padded_cases (interface p)
  rw [← hthrough _ fun h => hset (prefix_nil.1 h), hkey.loads, ← prefix_padded hplain, ← hpadded, prefix_iff_eq_take]
  constructor
  · rintro ⟨_, ⟨⟩, heq⟩
    exact heq.symm
  · exact fun heq => ⟨_, rfl, heq.symm⟩

/-! ### Flows -/

theorem matches_reply : Matches m matchReply IsReply := by
  have hlen : ∀ (p : Packet) (bytes : Bytes), loadCt p .DIRECTION = some bytes → bytes.length = 1 := by
    intro p bytes h
    obtain ⟨ct, -, rfl⟩ := Option.map_eq_some_iff.1 h
    rfl
  refine ((loads_ct .DIRECTION 1).tests hlen (tests_cmp 1 1 [ctDirectionReply] (Nat.le_refl 1))).congr fun p => ?_
  constructor
  · rintro ⟨_, hload, heq⟩
    obtain ⟨ct, hct, rfl⟩ := Option.map_eq_some_iff.1 hload
    exact ⟨ct, hct, (List.cons.inj heq).1⟩
  · rintro ⟨ct, hct, hdirection⟩
    refine ⟨[ct.direction], congrArg (Option.map fun ct : Conntrack => [ct.direction]) hct, ?_⟩
    rw [hdirection]
    rfl

theorem byte_and_bit (byte : UInt8) : byte &&& 128 = 0 ↔ byte.toNat.testBit 7 = false := by
  rw [← UInt8.toNat_inj, UInt8.toNat_and, show (128 : UInt8).toNat = 2 ^ 7 from rfl, Nat.and_two_pow]
  cases byte.toNat.testBit 7 <;> decide

theorem and_zeros (bytes : Bytes) : List.zipWith (· &&& ·) bytes (List.replicate bytes.length 0) = List.replicate bytes.length 0 := by
  induction bytes with
  | nil => rfl
  | cons byte bytes ih => rw [length_cons, replicate_succ, zipWith_cons_cons, ih, UInt8.and_zero]

/-- Of sixteen bytes of labels, the mask of the guard leaves the last bit. -/
theorem labels_masked {labels : Bytes} (h : labels.length = 16) :
    List.zipWith (· &&& ·) labels ctLabel = List.replicate 16 0 ↔ (labels.getD 15 0).toNat.testBit 7 = false := by
  obtain ⟨init, last, rfl⟩ := (eq_nil_or_concat' labels).resolve_left (by rintro rfl; cases h)
  rw [length_append, length_singleton] at h
  have hinit : init.length = 15 := by omega
  have hzeros : List.zipWith (· &&& ·) init (List.replicate 15 (0 : UInt8)) = List.replicate 15 0 := hinit ▸ and_zeros init
  rw [show ctLabel = List.replicate 15 0 ++ [128] from by decide, zipWith_append (by simp [hinit]), hzeros,
    show List.replicate 16 (0 : UInt8) = List.replicate 15 0 ++ [0] from rfl, append_cancel_left_eq,
    getD_append_right _ _ _ _ (Nat.le_of_eq hinit), hinit]
  show [last &&& 128] = [0] ↔ last.toNat.testBit 7 = false
  rw [← byte_and_bit, List.cons.injEq, and_iff_left rfl]

/-- The label of the guard is matched by its bit alone, whatever other labels the flow has. -/
theorem matches_label : Matches m matchLabel Labelled := by
  have hlen : ∀ (p : Packet) (bytes : Bytes), loadCt p .LABELS = some bytes → bytes.length = 16 := by
    intro p bytes h
    obtain ⟨ct, -, rfl⟩ := Option.map_eq_some_iff.1 h
    exact ct.length_labels
  have htest : Tests m [.Bitwise 1 1 16 ctLabel (List.replicate 16 0), .Cmp .Neq 1 (List.replicate 16 0)] 1 16
      fun bytes => (List.zipWith (· &&& ·) bytes ctLabel).take 16 ≠ List.replicate 16 0 :=
    (tests_neq 1 16 (List.replicate 16 0) (Nat.le_refl 16)).masked (by decide)
  refine ((loads_ct .LABELS 1).tests hlen htest).congr fun p => ?_
  have hmasked : ∀ ct : Conntrack, (List.zipWith (· &&& ·) ct.labels ctLabel).take 16 ≠ List.replicate 16 0 ↔
      (ct.labels.getD 15 0).toNat.testBit 7 = true := by
    intro ct
    rw [take_of_length_le (by rw [length_zipWith, ct.length_labels]; exact Nat.min_le_left _ _), ne_eq,
      labels_masked ct.length_labels, Bool.not_eq_false]
  constructor
  · rintro ⟨_, hload, hne⟩
    obtain ⟨ct, hct, rfl⟩ := Option.map_eq_some_iff.1 hload
    exact ⟨ct, hct, (hmasked ct).1 hne⟩
  · rintro ⟨ct, hct, hbit⟩
    exact ⟨ct.labels, congrArg (Option.map fun ct : Conntrack => ct.labels) hct, (hmasked ct).2 hbit⟩

theorem runs_setLabel : Runs m setLabel := fun _ => ⟨_, rfl⟩

/-! ### Headers -/

theorem valueOf_inj (hlen : a.length = b.length) (h : valueOf a = valueOf b) : a = b := by
  rw [← bytesOf_valueOf a, ← bytesOf_valueOf b, hlen, h]

theorem matches_port (offset : Nat) (port : UInt16) : Matches m (matchPort offset port) fun p =>
      (Lib.NfTables.loadPayload p .TransportHeader offset 2).map valueOf = some port.toNat := by
  have hdata : (putUint16 port).length = 2 := length_bytesOf _ _
  have hvalue : valueOf (putUint16 port) = port.toNat := valueOf_bytesOf port.toNat_lt
  refine ((loads_payload .TransportHeader offset 2 1).tests (fun _ _ => length_loadPayload)
    (tests_cmp 1 2 (putUint16 port) (Nat.le_of_eq hdata))).congr fun p => ?_
  rw [hdata]
  constructor
  · rintro ⟨bytes, hload, heq⟩
    rw [take_of_length_le (Nat.le_of_eq (length_loadPayload hload))] at heq
    rw [hload, Option.map_some, heq, hvalue]
  · intro hport
    obtain ⟨bytes, hload, heq⟩ := Option.map_eq_some_iff.1 hport
    have hlen := length_loadPayload hload
    refine ⟨bytes, hload, ?_⟩
    rw [take_of_length_le (Nat.le_of_eq hlen)]
    exact valueOf_inj (hlen.trans hdata.symm) (heq.trans hvalue.symm)

theorem matches_sourcePort (port : UInt16) : Matches m (matchPort 0 port) fun p => sourcePort p = some port.toNat :=
  (matches_port 0 port).congr fun p => by rw [sourcePort_eq]

theorem matches_destinationPort (port : UInt16) : Matches m (matchPort 2 port) fun p => destinationPort p = some port.toNat :=
  (matches_port 2 port).congr fun p => by rw [destinationPort_eq]

/-- The types from 130 to 137 of ICMPv6: listeners, routers and neighbours. -/
theorem matches_types : Matches m [loadPayload .TransportHeader 0 1, .Range .Eq 1 [130] [137]] fun p =>
      ∃ type, messageType p = some type ∧ 130 ≤ type ∧ type ≤ 137 := by
  refine ((loads_payload .TransportHeader 0 1 1).tests (fun _ _ => length_loadPayload)
    (tests_range 1 1 [130] [137] (Nat.le_refl 1))).congr fun p => ?_
  rw [messageType_eq]
  constructor
  · rintro ⟨bytes, hload, hfrom, hto⟩
    rw [length_singleton, take_of_length_le (Nat.le_of_eq (length_loadPayload hload))] at hfrom hto
    exact ⟨valueOf bytes, congrArg (Option.map valueOf) hload, hfrom, hto⟩
  · rintro ⟨_, htype, hfrom, hto⟩
    obtain ⟨bytes, hload, rfl⟩ := Option.map_eq_some_iff.1 htype
    refine ⟨bytes, hload, ?_⟩
    rw [length_singleton, take_of_length_le (Nat.le_of_eq (length_loadPayload hload))]
    exact ⟨hfrom, hto⟩

theorem matches_type (type : UInt8) : Matches m [loadPayload .TransportHeader 0 1, cmpEq [type]] fun p => messageType p = some type.toNat := by
  refine ((loads_payload .TransportHeader 0 1 1).tests (fun _ _ => length_loadPayload) (tests_cmp 1 1 [type] (Nat.le_refl 1))).congr fun p => ?_
  have hvalue : valueOf [type] = type.toNat := Nat.zero_add _
  rw [messageType_eq]
  constructor
  · rintro ⟨bytes, hload, heq⟩
    rw [length_singleton, take_of_length_le (Nat.le_of_eq (length_loadPayload hload))] at heq
    rw [hload, Option.map_some, heq, hvalue]
  · intro htype
    obtain ⟨bytes, hload, heq⟩ := Option.map_eq_some_iff.1 htype
    have hlen := length_loadPayload hload
    refine ⟨bytes, hload, ?_⟩
    rw [length_singleton, take_of_length_le (Nat.le_of_eq hlen)]
    exact valueOf_inj hlen (heq.trans hvalue.symm)

/-- A lookup matches when the bytes are there and in the set. -/
theorem matches_set {base : PayloadBase} {set : NftSet} {elems : List SetElement}
    (hfind : (m.sets.find? fun other => other.1.id == set.id && other.1.name == set.name) = some (set, elems))
    (hlen : set.keyLen = len) :
    Matches m (matchSet base offset len set) fun p =>
      ∃ bytes, Lib.NfTables.loadPayload p base offset len = some bytes ∧ set.contains elems bytes = true := by
  refine ((loads_payload base offset len 1).tests (fun _ _ => length_loadPayload) (tests_lookup 1 len hfind (Nat.le_of_eq hlen))).congr fun p => ?_
  refine exists_congr fun bytes => and_congr_right fun hload => ?_
  rw [take_of_length_le (by rw [length_loadPayload hload, hlen])]

/-! ### Sets of the LAN -/

/-- The set of ports has the two of DNS. -/
theorem lanPorts_iff (bytes : Bytes) (h : bytes.length = 2) :
    lanDnsPorts.contains lanPortElements bytes = true ↔ valueOf bytes = 53 ∨ valueOf bytes = 853 := by
  have hport : ∀ port : UInt16, putUint16 port = bytes ↔ valueOf bytes = port.toNat := by
    intro port
    have hvalue : valueOf (putUint16 port) = port.toNat := valueOf_bytesOf port.toNat_lt
    constructor
    · rintro rfl
      exact hvalue
    · exact fun heq => valueOf_inj ((length_bytesOf _ _).trans h.symm) (hvalue.trans heq.symm)
  show (putUint16 53 == bytes || (putUint16 853 == bytes || false)) = true ↔ _
  rw [Bool.or_false, Bool.or_eq_true, beq_iff_eq, beq_iff_eq, hport, hport]
  exact Iff.rfl

/-- To a port of DNS, plain or over TLS. -/
def ToDnsPort (p : Packet) : Prop := destinationPort p = some 53 ∨ destinationPort p = some 853

theorem matches_lanPorts (hfind : (m.sets.find? fun other => other.1.id == lanDnsPorts.id && other.1.name == lanDnsPorts.name) =
    some (lanDnsPorts, lanPortElements)) : Matches m (matchSet .TransportHeader 2 2 lanDnsPorts) ToDnsPort := by
  have hset : Matches m (matchSet .TransportHeader 2 2 lanDnsPorts) fun p =>
    ∃ bytes, Lib.NfTables.loadPayload p .TransportHeader 2 2 = some bytes ∧ lanDnsPorts.contains lanPortElements bytes = true := matches_set hfind rfl
  refine hset.congr fun p => ?_
  rw [ToDnsPort, destinationPort_eq]
  constructor
  · rintro ⟨bytes, hload, hin⟩
    rw [hload, Option.map_some, Option.some.injEq, Option.some.injEq]
    exact (lanPorts_iff bytes (length_loadPayload hload)).1 hin
  · intro hport
    cases hload : Lib.NfTables.loadPayload p .TransportHeader 2 2 with
    | none =>
      rw [hload] at hport
      rcases hport with hport | hport <;> cases hport
    | some bytes =>
      rw [hload, Option.map_some, Option.some.injEq, Option.some.injEq] at hport
      exact ⟨bytes, rfl, (lanPorts_iff bytes (length_loadPayload hload)).2 hport⟩

/-- The LAN of an address is that of its own IP version. -/
theorem inLan_iff {a : Addr} {own other : List Prefix} (hboth : ∀ range, range ∈ lanPrefixes4 ++ lanPrefixes6 ↔ range ∈ own ∨ range ∈ other)
    (hother : ∀ range ∈ other, range.addr.is4 ≠ a.is4) : InLan a ↔ ∃ range ∈ own, range.Contains a := by
  constructor
  · rintro ⟨range, hrange, hin⟩
    rcases (hboth range).1 hrange with hown | hwrong
    · exact ⟨range, hown, hin⟩
    · exact absurd hin.1.symm (hother range hwrong)
  · rintro ⟨range, hrange, hin⟩
    exact ⟨range, (hboth range).2 (.inl hrange), hin⟩

theorem inLan_v4 {a : Addr} (h : a.is4 = true) : InLan a ↔ ∃ range ∈ lanPrefixes4, range.Contains a :=
  inLan_iff (fun _ => mem_append) (h ▸ by decide)

theorem inLan_v6 {a : Addr} (h : a.is4 = false) : InLan a ↔ ∃ range ∈ lanPrefixes6, range.Contains a :=
  inLan_iff (fun _ => mem_append.trans or_comm) (h ▸ by decide)

/-- The address there is one of the LAN. -/
def LanAddress (family : LanFamily) (offset : Nat) (p : Packet) : Prop :=
  ∃ bytes, sliceAt p.network offset family.addrLen = some bytes ∧ InLan (addrFromSlice bytes)

/-- The set of the family has the LAN's addresses. -/
def Serves (m : Machine) (family : LanFamily) : Prop :=
  ∀ offset, Matches m (matchSet .NetworkHeader offset family.addrLen family.set) (LanAddress family offset)

/-- A set built from the family's prefixes has its LAN. -/
theorem serves_family {prefixes : List Prefix} {ranges : List (Addr × Addr)}
    {elems : List SetElement} {family : LanFamily} (hdoc : Documented net prefixes ranges) (hbuilt : prefixElements net prefixes = some elems)
    (hfind : (m.sets.find? fun other => other.1.id == family.set.id && other.1.name == family.set.name) =
    some (family.set, elems)) (hinterval : family.set.interval = true) (hkey : family.set.keyLen = family.addrLen)
    (hlen : family.addrLen = 4 ∨ family.addrLen = 16) (hlan : ∀ bytes : Bytes, bytes.length = family.addrLen →
    (InLan (addrFromSlice bytes) ↔ ∃ range ∈ prefixes, range.Contains (addrFromSlice bytes))) : Serves m family := by
  intro offset
  refine (matches_set hfind hkey).congr fun p => exists_congr fun bytes => and_congr_right fun hload => ?_
  have hbytes : bytes.length = family.addrLen := length_loadPayload hload
  rw [NftSet.contains, if_pos hinterval, hlan bytes hbytes, ← elements_hold hdoc hbuilt, AsSlice_addrFromSlice (hbytes ▸ hlen)]

end Matching

/-! ## Chains -/

section Adding

variable {m : Machine} {r r' r'' : NftRuleset} {chain : Text} {f g : Packet → Prop → Prop} {P : Packet → Prop}

/-- The rules of one chain, in their order. -/
def NftRuleset.rulesOf (r : NftRuleset) (chain : Text) : List (List Expr) :=
  (r.rules.filter fun rule => rule.chain == chain).map Rule.exprs

/-- One chain got rules that do this, and nothing else changed. -/
structure Adds (m : Machine) (r r' : NftRuleset) (chain : Text) (f : Packet → Prop → Prop) : Prop where
  rules : ∃ more, r'.rulesOf chain = r.rulesOf chain ++ more ∧ Segment m more f
  others : ∀ other, other ≠ chain → r'.rulesOf other = r.rulesOf other
  sets : r'.sets = r.sets
  elems : r'.elems = r.elems
  chains : r'.chains = r.chains

/-- No rules. -/
theorem adds_nil (m : Machine) (r : NftRuleset) (chain : Text) : Adds m r r chain fun _ q => q where
  rules := ⟨[], (append_nil _).symm, segment_nil⟩
  others _ _ := rfl
  sets := rfl
  elems := rfl
  chains := rfl

/-- Rules behind rules. -/
theorem Adds.trans (h : Adds m r r' chain f) (h' : Adds m r' r'' chain g) : Adds m r r'' chain fun p q => f p (g p q) where
  rules := by
    obtain ⟨more, heq, hmore⟩ := h.rules
    obtain ⟨last, heq', hlast⟩ := h'.rules
    exact ⟨more ++ last, by rw [heq', heq, append_assoc], hmore.append hlast⟩
  others other hne := (h'.others other hne).trans (h.others other hne)
  sets := h'.sets.trans h.sets
  elems := h'.elems.trans h.elems
  chains := h'.chains.trans h.chains

theorem Adds.congr (h : Adds m r r' chain f) (hfg : ∀ p q, f p q ↔ g p q) : Adds m r r' chain g where
  rules := by
    obtain ⟨more, heq, hmore⟩ := h.rules
    exact ⟨more, heq, hmore.congr hfg⟩
  others := h.others
  sets := h.sets
  elems := h.elems
  chains := h.chains

variable {found : List (List Expr)}

/-- A rule for one chain changes nothing else. -/
theorem adds_rule {verdict : VerdictKind} (h : Segment m [found.flatten ++ [.Verdict verdict]] f) : Adds m r (r.add chain verdict found) chain f where
  rules := by
    refine ⟨[found.flatten ++ [.Verdict verdict]], ?_, h⟩
    simp [NftRuleset.rulesOf, NftRuleset.add]
  others other hne := by
    rw [NftRuleset.rulesOf, NftRuleset.add, filter_append, filter_cons_of_neg (by simpa using hne.symm), filter_nil, append_nil]
    rfl
  sets := rfl
  elems := rfl
  chains := rfl

theorem adds_accept {Ps : List (Packet → Prop)} (h : List.Forall₂ (Matches m) found Ps)
    (hP : ∀ p, (∀ Q ∈ Ps, Q p) ↔ P p) : Adds m r (r.accept chain found) chain fun p q => P p ∨ q :=
  adds_rule (segment_accept (decides_flatten h hP .Accept))

theorem adds_drop {Ps : List (Packet → Prop)} (h : List.Forall₂ (Matches m) found Ps)
    (hP : ∀ p, (∀ Q ∈ Ps, Q p) ↔ P p) : Adds m r (r.drop chain found) chain fun p q => ¬P p ∧ q :=
  adds_rule (segment_drop (decides_flatten h hP .Drop))

/-- Rules that the configuration asks for, or does not. -/
theorem adds_if {c : Prop} [Decidable c] (h : c → Adds m r r' chain fun p q => P p ∨ q) :
    Adds m r (if c then r' else r) chain fun p q => (c ∧ P p) ∨ q := by
  by_cases hc : c
  · rw [if_pos hc]
    exact (h hc).congr fun p q => or_congr_left (and_iff_right hc).symm
  · rw [if_neg hc]
    exact (adds_nil m r chain).congr fun p q => (or_iff_right fun h => hc h.1).symm

/-- The same rule for the two interfaces of a packet. -/
theorem adds_both {Q : Packet → Prop} {iif oif : List Expr} (hiif : Matches m iif P) (hoif : Matches m oif Q) :
    Adds m r ((r.accept chain [iif]).accept chain [oif]) chain fun p q => (P p ∨ Q p) ∨ q :=
  ((adds_accept (.cons hiif .nil) fun p => forall_mem_singleton).trans
    (adds_accept (.cons hoif .nil) fun p => forall_mem_singleton)).congr fun p q => or_assoc.symm

/-- The rules of a loop, one turn behind the other. -/
theorem adds_foldl {α : Type} {step : NftRuleset → α → NftRuleset} {h : α → Packet → Prop → Prop} (items : List α)
    (hstep : ∀ a ∈ items, ∀ r, Adds m r (step r a) chain (h a)) (r : NftRuleset) :
    Adds m r (items.foldl step r) chain fun p q => items.foldr (fun a q => h a p q) q := by
  induction items generalizing r with
  | nil => exact adds_nil m r chain
  | cons a items ih =>
    exact (hstep a mem_cons_self r).trans (ih (fun b hb => hstep b (mem_cons_of_mem a hb)) (step r a))

theorem foldr_and {α : Type} (items : List α) (Q : α → Prop) (q : Prop) : items.foldr (fun a q => Q a ∧ q) q ↔ (∀ a ∈ items, Q a) ∧ q := by
  induction items with
  | nil => exact ⟨fun h => ⟨nofun, h⟩, And.right⟩
  | cons a items ih => rw [foldr_cons, ih, forall_mem_cons, and_assoc]

theorem foldr_or {α : Type} (items : List α) (Q : α → Prop) (q : Prop) : items.foldr (fun a q => Q a ∨ q) q ↔ (∃ a ∈ items, Q a) ∨ q := by
  induction items with
  | nil => exact ⟨.inr, fun h => h.resolve_left fun ⟨_, hno, _⟩ => nomatch hno⟩
  | cons a items ih => rw [foldr_cons, ih, exists_mem_cons_iff, or_assoc]

/-! ### Interfaces -/

/-- Names as the configuration has them. -/
structure Config.Named (cfg : Config) : Prop where
  tun_short : cfg.TunName.length ≤ 15
  tun_plain : 0 ∉ cfg.TunName
  bridge_short : cfg.BridgeName.length ≤ 12
  bridge_plain : 0 ∉ cfg.BridgeName

theorem pattern_plain (h : interfaceNamePattern name = true) : 0 ∉ name :=
  fun hzero => nomatch all_eq_true.1 h 0 hzero

/-- Every configuration that parses has such names. -/
theorem parseConfig_named {net : Netip} {raw : Except Bytes RawConfig} {cfg : Config} (h : parseConfig net raw = .ok cfg) : cfg.Named := by
  cases raw with
  | error err => cases h
  | ok raw =>
    rw [parseConfig] at h
    split at h
    · cases h
    next htun =>
      split at h
      · cases h
      next hbridge =>
        rw [Bool.or_eq_true, not_or, decide_eq_true_eq, Bool.not_eq_true', Bool.not_eq_false] at htun hbridge
        cases hprefixes : parsePrefixes net raw.TunCIDRs with
        | error err =>
          rw [hprefixes] at h
          cases h
        | ok prefixes =>
          rw [hprefixes] at h
          cases h
          exact ⟨Nat.not_lt.1 htun.1, pattern_plain htun.2, Nat.not_lt.1 hbridge.1, pattern_plain hbridge.2⟩

/-- A packet of the tun or of a bridge is accepted. -/
theorem adds_interfaces {cfg : Config} (hcfg : cfg.Named) (r : NftRuleset) :
    Adds m r (r.interfaces chain cfg) chain fun p q => Permitted cfg p ∨ q := by
  refine ((adds_if fun hset => adds_both (matches_ifname nameOf_iif hset hcfg.tun_short hcfg.tun_plain)
    (matches_ifname nameOf_oif hset hcfg.tun_short hcfg.tun_plain)).trans (adds_if fun hset => adds_both
    (matches_bridge nameOf_iif hset hcfg.bridge_short hcfg.bridge_plain)
    (matches_bridge nameOf_oif hset hcfg.bridge_short hcfg.bridge_plain))).congr fun p q => ?_
  rw [Permitted, or_assoc]

/-! ### The LAN -/

/-- DNS to the LAN by one of the protocols. -/
def Blocks (family : LanFamily) (proto : UInt8) (p : Packet) : Prop :=
  p.nfproto = family.nfproto ∧ p.l4proto = some proto ∧ ToDnsPort p ∧ LanAddress family family.daddr p

/-- To the LAN, and when forwarded from the LAN too. -/
def Allows (forwarded : Bool) (family : LanFamily) (p : Packet) : Prop :=
  p.nfproto = family.nfproto ∧ (forwarded = true → LanAddress family family.saddr p) ∧ LanAddress family family.daddr p

/-- The rules of the LAN: blocks first, then what is allowed. -/
theorem adds_lan {families : List LanFamily} {dnsPorts : NftSet} (forwarded : Bool)
    (hports : families ≠ [] → Matches m (matchSet .TransportHeader 2 2 dnsPorts) ToDnsPort)
    (hserves : ∀ family ∈ families, Serves m family) (r : NftRuleset) :
    Adds m r (r.lan chain families dnsPorts forwarded) chain fun p q =>
      (∀ family ∈ families, ∀ proto ∈ [IPPROTO_TCP, IPPROTO_UDP], ¬Blocks family proto p) ∧
        ((∃ family ∈ families, Allows forwarded family p) ∨ q) := by
  have hdrop : ∀ family ∈ families, ∀ r, Adds m r ([IPPROTO_TCP, IPPROTO_UDP].foldl (fun r proto =>
    r.drop chain [matchMeta .NFPROTO [family.nfproto], matchMeta .L4PROTO [proto], matchSet .TransportHeader 2 2 dnsPorts,
      matchSet .NetworkHeader family.daddr family.addrLen family.set]) r) chain fun p q =>
    (∀ proto ∈ [IPPROTO_TCP, IPPROTO_UDP], ¬Blocks family proto p) ∧ q := by
    intro family hfamily r
    refine (adds_foldl (h := fun proto p q => ¬Blocks family proto p ∧ q) _ (fun proto _ r => ?_) r).congr fun p q => foldr_and _ _ _
    refine adds_drop (.cons (matches_nfproto _) (.cons (matches_l4proto proto)
      (.cons (hports (ne_nil_of_mem hfamily)) (.cons (hserves family hfamily _) .nil)))) fun p => ?_
    rw [forall_mem_cons, forall_mem_cons, forall_mem_cons, forall_mem_singleton]
    exact Iff.rfl
  have haccept : ∀ family ∈ families, ∀ r, Adds m r (r.accept chain ((if forwarded then [matchMeta .NFPROTO [family.nfproto]] ++
        [matchSet .NetworkHeader family.saddr family.addrLen family.set] else [matchMeta .NFPROTO [family.nfproto]]) ++
        [matchSet .NetworkHeader family.daddr family.addrLen family.set])) chain fun p q =>
      Allows forwarded family p ∨ q := by
    intro family hfamily r
    cases forwarded with
    | true =>
      refine adds_accept (.cons (matches_nfproto _) (.cons (hserves family hfamily _) (.cons (hserves family hfamily _) .nil))) fun p => ?_
      rw [forall_mem_cons, forall_mem_cons, forall_mem_singleton, Allows, forall_prop_of_true rfl]
    | false =>
      refine adds_accept (.cons (matches_nfproto _) (.cons (hserves family hfamily _) .nil)) fun p => ?_
      rw [forall_mem_cons, forall_mem_singleton, Allows, forall_prop_of_false (nomatch ·), true_and]
  refine ((adds_foldl families hdrop r).trans (adds_foldl families haccept _)).congr fun p q => ?_
  rw [foldr_and, foldr_or]

variable {p : Packet} {family : LanFamily}

/-- Both addresses of a header of the family. -/
theorem endpoints_family (hfamily : family ∈ lanFamilies) (h : p.nfproto = family.nfproto) :
    family.saddr ≤ family.daddr ∧ endpoints p = if family.daddr + family.addrLen ≤ p.network.length then
    some (addrFromSlice ((p.network.drop family.saddr).take family.addrLen),
    addrFromSlice ((p.network.drop family.daddr).take family.addrLen)) else none := by
  rw [lanFamilies, mem_cons, mem_singleton] at hfamily
  rcases hfamily with rfl | rfl
  · exact ⟨by decide, endpoints_v4 h⟩
  · exact ⟨by decide, endpoints_v6 h⟩

/-- A packet whose addresses can be read is of one of the families. -/
theorem family_of_endpoints {ends : Addr × Addr} (h : endpoints p = some ends) : ∃ family ∈ lanFamilies, p.nfproto = family.nfproto := by
  rw [endpoints] at h
  split at h
  · next h4 => exact ⟨_, mem_cons_self, h4⟩
  · split at h
    · next h6 => exact ⟨_, mem_cons_of_mem _ mem_cons_self, h6⟩
    · cases h

theorem lanAddress_iff (h : offset + family.addrLen ≤ p.network.length) :
    LanAddress family offset p ↔ InLan (addrFromSlice ((p.network.drop offset).take family.addrLen)) := by
  rw [LanAddress, sliceAt, if_pos h]
  constructor
  · rintro ⟨_, ⟨⟩, hin⟩
    exact hin
  · exact fun hin => ⟨_, rfl, hin⟩

theorem short_of_lanAddress (h : LanAddress family offset p) : offset + family.addrLen ≤ p.network.length := by
  obtain ⟨bytes, hslice, -⟩ := h
  rw [sliceAt] at hslice
  split at hslice
  · next hle => exact hle
  · cases hslice

/-- A packet goes to the LAN when its family's destination does. -/
theorem toLan_family (hfamily : family ∈ lanFamilies) (h : p.nfproto = family.nfproto) : ToLan p ↔ LanAddress family family.daddr p := by
  obtain ⟨-, hends⟩ := endpoints_family hfamily h
  rw [ToLan, hends]
  constructor
  · rintro ⟨source, destination, heq, hin⟩
    split at heq
    · next hle =>
      cases heq
      exact (lanAddress_iff hle).2 hin
    · cases heq
  · intro hlan
    have hle := short_of_lanAddress hlan
    exact ⟨_, _, if_pos hle, (lanAddress_iff hle).1 hlan⟩

theorem fromLan_family (hfamily : family ∈ lanFamilies) (h : p.nfproto = family.nfproto)
    (hlen : family.daddr + family.addrLen ≤ p.network.length) : FromLan p ↔ LanAddress family family.saddr p := by
  obtain ⟨hbefore, hends⟩ := endpoints_family hfamily h
  rw [FromLan, hends, if_pos hlen, lanAddress_iff (by omega)]
  constructor
  · rintro ⟨_, _, ⟨⟩, hin⟩
    exact hin
  · exact fun hin => ⟨_, _, rfl, hin⟩

/-- What the rules of the LAN admit. -/
theorem lan_policy (forwarded : Bool) : ((∀ family ∈ lanFamilies, ∀ proto ∈ [IPPROTO_TCP, IPPROTO_UDP], ¬Blocks family proto p) ∧
    ((∃ family ∈ lanFamilies, Allows forwarded family p) ∨ False)) ↔ (forwarded = true → FromLan p) ∧ ToLan p ∧ ¬Dns p := by
  rw [or_false]
  constructor
  · rintro ⟨hblocks, family, hfamily, hproto, hfrom, hto⟩
    have hlen := short_of_lanAddress hto
    refine ⟨fun hforwarded => (fromLan_family hfamily hproto hlen).2 (hfrom hforwarded), (toLan_family hfamily hproto).2 hto, ?_⟩
    rintro ⟨hl4, hport⟩
    rcases hl4 with htcp | hudp
    · exact hblocks family hfamily IPPROTO_TCP mem_cons_self ⟨hproto, htcp, hport, hto⟩
    · exact hblocks family hfamily IPPROTO_UDP (mem_cons_of_mem _ mem_cons_self) ⟨hproto, hudp, hport, hto⟩
  · rintro ⟨hfrom, hto, hdns⟩
    constructor
    · rintro family - proto hproto ⟨-, hl4, hport, -⟩
      rw [mem_cons, mem_singleton] at hproto
      refine hdns ⟨?_, hport⟩
      rcases hproto with rfl | rfl
      · exact .inl hl4
      · exact .inr hl4
    · obtain ⟨source, destination, hends, -⟩ := id hto
      obtain ⟨family, hfamily, hproto⟩ := family_of_endpoints hends
      have hlan := (toLan_family hfamily hproto).1 hto
      exact ⟨family, hfamily, hproto, fun hforwarded => (fromLan_family hfamily hproto (short_of_lanAddress hlan)).1 (hfrom hforwarded), hlan⟩

end Adding

/-! ## The sets of the LAN -/

section Lan

/-- All addresses of a prefix without host bits. -/
def wholeRange (range : Prefix) : Addr × Addr := (range.addr, range.addr.withNat (range.addr.toNat + (2 ^ range.hostBits - 1)))

/-- The last address of an aligned prefix is of its family and does not overflow. -/
theorem wholeRange_facts {range : Prefix} (h : range.addr.toNat % 2 ^ range.hostBits = 0) : (wholeRange range).2.is4 = range.addr.is4 ∧
    (wholeRange range).2.toNat = range.addr.toNat + (2 ^ range.hostBits - 1) := by
  have hpos : 0 < 2 ^ range.hostBits := Nat.two_pow_pos _
  have hlt : range.addr.toNat + (2 ^ range.hostBits - 1) < 2 ^ range.addr.bitLen := by
    have hbits : range.addr.bitLen = range.hostBits + range.bits := (Nat.sub_add_cancel range.bits_le).symm
    obtain ⟨blocks, hblocks⟩ := Nat.dvd_of_mod_eq_zero h
    have hroom := range.addr.toNat_lt
    rw [hbits, Nat.pow_add, hblocks] at hroom
    have hnext : blocks + 1 ≤ 2 ^ range.bits := Nat.lt_of_mul_lt_mul_left hroom
    have hfits : 2 ^ range.hostBits * (blocks + 1) ≤ 2 ^ range.hostBits * 2 ^ range.bits := Nat.mul_le_mul_left _ hnext
    rw [Nat.mul_succ] at hfits
    rw [hbits, Nat.pow_add, hblocks]
    omega
  refine ⟨?_, (range.addr.withNat_facts hlt).1⟩
  cases hrange : range.addr with
  | v4 value | v6 value => rw [wholeRange, hrange]; rfl

/-- An aligned prefix contains the addresses from its first to its last. -/
theorem contains_iff_wholeRange {range : Prefix} (h : range.addr.toNat % 2 ^ range.hostBits = 0) (a : Addr) :
    range.Contains a ↔ (wholeRange range).1.is4 = a.is4 ∧ (wholeRange range).1.toNat ≤ a.toNat ∧ a.toNat ≤ (wholeRange range).2.toNat := by
  have hpos : 0 < 2 ^ range.hostBits := Nat.two_pow_pos _
  obtain ⟨blocks, hblocks⟩ := Nat.dvd_of_mod_eq_zero h
  rw [(wholeRange_facts h).2, Prefix.Contains, eq_comm]
  refine and_congr_right fun _ => ?_
  show _ ↔ range.addr.toNat ≤ a.toNat ∧ _
  rw [hblocks, Nat.mul_div_cancel_left _ hpos, Nat.div_eq_iff hpos, Nat.mul_comm blocks]
  omega

/-- What is documented, where no two prefixes are next to each other. -/
theorem documented_apart {prefixes sorted : List Prefix}
    (hbuilt : net.ranges prefixes = some (sorted.map wholeRange)) (hperm : ∀ range, range ∈ sorted ↔ range ∈ prefixes)
    (hmasked : ∀ range ∈ prefixes, range.addr.toNat % 2 ^ range.hostBits = 0)
    (hapart : ∀ rng ∈ sorted.map wholeRange, ∀ other ∈ sorted.map wholeRange, rng.1.is4 = other.1.is4 →
    rng = other ∨ rng.2.toNat + 1 < other.1.toNat ∨ other.2.toNat + 1 < rng.1.toNat) : Documented net prefixes (sorted.map wholeRange) where
  built := hbuilt
  ordered rng hrng := by
    obtain ⟨range, hrange, rfl⟩ := mem_map.1 hrng
    obtain ⟨hfam, hlast⟩ := wholeRange_facts (hmasked range ((hperm range).1 hrange))
    exact ⟨hfam.symm, hlast ▸ Nat.le_add_right _ _⟩
  holds a := by
    constructor
    · rintro ⟨rng, hrng, hin⟩
      obtain ⟨range, hrange, rfl⟩ := mem_map.1 hrng
      have hmem := (hperm range).1 hrange
      exact ⟨range, hmem, (contains_iff_wholeRange (hmasked range hmem) a).2 hin⟩
    · rintro ⟨range, hrange, hin⟩
      exact ⟨wholeRange range, mem_map_of_mem ((hperm range).2 hrange), (contains_iff_wholeRange (hmasked range hrange) a).1 hin⟩
  fewest := hapart

/-- A builder that knows the prefixes of the LAN. -/
def lanBuilder : IPSets where
  ranges prefixes :=
    if prefixes = lanPrefixes4 then some (lanSorted4.map wholeRange)
    else if prefixes = lanPrefixes6 then some (lanSorted6.map wholeRange) else none

/-- The builder does what is documented on both lists. -/
theorem documented_lan4 : Documented lanBuilder lanPrefixes4 (lanSorted4.map wholeRange) := by
  refine documented_apart (by decide) (fun range => ?_) (by decide) (by decide)
  simp only [lanSorted4, lanPrefixes4, mem_cons, not_mem_nil, or_false]
  tauto

theorem documented_lan6 : Documented lanBuilder lanPrefixes6 (lanSorted6.map wholeRange) := by
  refine documented_apart (by decide) (fun range => ?_) (by decide) (by decide)
  simp only [lanSorted6, lanPrefixes6, mem_cons, not_mem_nil, or_false]
  tauto

end Lan

/-! ## The whole ruleset -/

section Whole

variable {m : Machine} {cfg : Config}

/-- What the core itself sends is accepted, and its flow gets the label. -/
theorem adds_group (r : NftRuleset) (chain : Text) : Adds m r (r.accept chain [matchMeta .SKGID (m.order.putUint32 GID), setLabel]) chain fun p q =>
      p.skgid = some GID ∨ q := by
  have hdecides := (matches_skgid (m := m) GID).decides runs_setLabel .Accept
  have hflat : [matchMeta .SKGID (m.order.putUint32 GID), setLabel].flatten = matchMeta .SKGID (m.order.putUint32 GID) ++ setLabel := rfl
  exact adds_rule (segment_accept (hflat ▸ hdecides))

/-- The API answers from its port, if it has one. -/
theorem adds_api (r : NftRuleset) (chain : Text) : Adds m r (if cfg.APIPort ≠ 0 then
      r.accept chain [matchMeta .L4PROTO [IPPROTO_TCP], matchPort 0 cfg.APIPort, matchReply] else r) chain fun p q =>
        ApiReply cfg p ∨ q := by
  refine adds_if fun _ => adds_accept (.cons (matches_l4proto _) (.cons (matches_sourcePort _) (.cons matches_reply .nil))) fun p => ?_
  rw [forall_mem_cons, forall_mem_cons, forall_mem_singleton]

/-- The messages that keep a link of IPv6 up. -/
theorem adds_link (r : NftRuleset) (chain : Text) : Adds m r ((r.accept chain [matchMeta .NFPROTO [NFPROTO_IPV6], matchMeta .L4PROTO [IPPROTO_ICMPV6],
    [loadPayload .TransportHeader 0 1, .Range .Eq 1 [130] [137]]]).accept chain
    [matchMeta .NFPROTO [NFPROTO_IPV6], matchMeta .L4PROTO [IPPROTO_ICMPV6],
    [loadPayload .TransportHeader 0 1, cmpEq [143]]]) chain fun p q => LinkMessage p ∨ q := by
  have hall : ∀ (P Q R : Packet → Prop) (p : Packet), (∀ S ∈ [P, Q, R], S p) ↔ P p ∧ Q p ∧ R p := by
    intro P Q R p
    rw [forall_mem_cons, forall_mem_cons, forall_mem_singleton]
  refine ((adds_accept (.cons (matches_nfproto _) (.cons (matches_l4proto _) (.cons matches_types .nil)))
    (hall _ _ _)).trans (adds_accept (.cons (matches_nfproto _) (.cons (matches_l4proto _)
      (.cons (matches_type 143) .nil))) (hall _ _ _))).congr fun p q => ?_
  rw [← or_assoc]
  refine or_congr_left ?_
  constructor
  · rintro (⟨hv6, hicmp, type, htype, hrange⟩ | ⟨hv6, hicmp, htype⟩)
    · exact ⟨hv6, hicmp, type, htype, .inl hrange⟩
    · exact ⟨hv6, hicmp, 143, htype, .inr rfl⟩
  · rintro ⟨hv6, hicmp, type, htype, hrange | rfl⟩
    · exact .inl ⟨hv6, hicmp, type, htype, hrange⟩
    · exact .inr ⟨hv6, hicmp, htype⟩

/-- Requests from a fixed port to a fixed port. -/
theorem adds_dhcp (r : NftRuleset) (chain : Text) (nfproto : UInt8) (source destination : UInt16) :
    Adds m r (r.accept chain [matchMeta .NFPROTO [nfproto], matchMeta .L4PROTO [IPPROTO_UDP], matchPort 0 source,
      matchPort 2 destination]) chain fun p q =>
        (p.nfproto = nfproto ∧ p.l4proto = some IPPROTO_UDP ∧ sourcePort p = some source.toNat ∧ destinationPort p = some destination.toNat) ∨ q := by
  refine adds_accept (.cons (matches_nfproto _) (.cons (matches_l4proto _) (.cons (matches_sourcePort _)
    (.cons (matches_destinationPort _) .nil)))) fun p => ?_
  rw [forall_mem_cons, forall_mem_cons, forall_mem_cons, forall_mem_singleton]

/-- The first chain, rule for rule. -/
theorem adds_postrouting {lan : List LanFamily} (hcfg : cfg.Named)
    (hports : lan ≠ [] → Matches m (matchSet .TransportHeader 2 2 lanDnsPorts) ToDnsPort)
    (hserves : ∀ family ∈ lan, Serves m family) (r : NftRuleset) :
    Adds m r (postroutingRules m.order cfg lan r) postrouting fun p q =>
      Through p.oif (· = [108, 111]) ∨ Permitted cfg p ∨ Labelled p ∨ p.skgid = some GID ∨ DhcpRequest p ∨
        Dhcpv6Request p ∨ LinkMessage p ∨ Igmp p ∨ ApiReply cfg p ∨
          (∀ family ∈ lan, ∀ proto ∈ [IPPROTO_TCP, IPPROTO_UDP], ¬Blocks family proto p) ∧ ((∃ family ∈ lan, Allows false family p) ∨ q) := by
  have hlo : Matches m (matchIfname .OIFNAME [108, 111]) fun p => Through p.oif (· = [108, 111]) :=
    matches_ifname nameOf_oif (by decide) (by decide) (by decide)
  have higmp : ∀ p : Packet, (∀ Q ∈ [fun p : Packet => p.nfproto = NFPROTO_IPV4, fun p => p.l4proto = some IPPROTO_IGMP], Q p) ↔ Igmp p := by
    intro p
    rw [forall_mem_cons, forall_mem_singleton, Igmp]
  exact (adds_accept (.cons hlo .nil) fun p => forall_mem_singleton).trans ((adds_interfaces hcfg _).trans
    ((adds_accept (.cons matches_label .nil) fun p => forall_mem_singleton).trans
    ((adds_group _ postrouting).trans
    ((adds_dhcp _ postrouting NFPROTO_IPV4 68 67).trans
    ((adds_dhcp _ postrouting NFPROTO_IPV6 546 547).trans
    ((adds_link _ postrouting).trans
    ((adds_accept (.cons (matches_nfproto _) (.cons (matches_l4proto _) .nil)) higmp).trans
    ((adds_api _ postrouting).trans
    (adds_lan false hports hserves _)))))))))

/-- The chains of the ruleset, where its sets are there. -/
theorem accepts_iff {r₀ : NftRuleset} {lan : List LanFamily}
    (hsets : lanSets net cfg = some (r₀, lan)) (hempty : r₀.chains = [] ∧ r₀.rules = []) (hcfg : cfg.Named)
    (hports : lan ≠ [] → Matches ⟨order, r₀.sets.zip r₀.elems⟩ (matchSet .TransportHeader 2 2 lanDnsPorts) ToDnsPort)
    (hserves : ∀ family ∈ lan, Serves ⟨order, r₀.sets.zip r₀.elems⟩ family) : ∃ r, newRuleset net order cfg = some r ∧
    (∀ s : State, r.accepts order .Postrouting s = true ↔ Through s.packet.oif (· = [108, 111]) ∨ Permitted cfg s.packet ∨ Labelled s.packet ∨
    s.packet.skgid = some GID ∨ DhcpRequest s.packet ∨ Dhcpv6Request s.packet ∨ LinkMessage s.packet ∨ Igmp s.packet ∨ ApiReply cfg s.packet ∨
    (∀ family ∈ lan, ∀ proto ∈ [IPPROTO_TCP, IPPROTO_UDP], ¬Blocks family proto s.packet) ∧
    ((∃ family ∈ lan, Allows false family s.packet) ∨ False)) ∧ ∀ s : State, r.accepts order .Forward s = true ↔
    Permitted cfg s.packet ∨ (∀ family ∈ lan, ∀ proto ∈ [IPPROTO_TCP, IPPROTO_UDP], ¬Blocks family proto s.packet) ∧
    ((∃ family ∈ lan, Allows true family s.packet) ∨ False) := by
  obtain ⟨hchains, hrules⟩ := hempty
  obtain ⟨m, hm⟩ : ∃ m : Machine, m = ⟨order, r₀.sets.zip r₀.elems⟩ := ⟨_, rfl⟩
  rw [← hm] at hports hserves
  have horder : m.order = order := by rw [hm]
  obtain ⟨r₁, hr₁⟩ : ∃ r₁, postroutingRules m.order cfg lan (r₀.addChain postrouting .Postrouting) = r₁ := ⟨_, rfl⟩
  obtain ⟨r₂, hr₂⟩ : ∃ r₂, ((r₁.addChain forward .Forward).interfaces forward cfg).lan forward lan lanDnsPorts true = r₂ := ⟨_, rfl⟩
  have hpost := adds_postrouting hcfg hports hserves (r₀.addChain postrouting .Postrouting)
  have hforward : Adds m _ _ forward _ := (adds_interfaces hcfg (r₁.addChain forward .Forward)).trans (adds_lan true hports hserves _)
  rw [hr₁] at hpost
  rw [hr₂] at hforward
  have hsame : r₂.sets.zip r₂.elems = r₀.sets.zip r₀.elems := by
    rw [hforward.sets, hforward.elems]
    show r₁.sets.zip r₁.elems = _
    rw [hpost.sets, hpost.elems]
    rfl
  have hboth : r₂.chains = [⟨postrouting, .Postrouting, .Drop⟩, ⟨forward, .Forward, .Drop⟩] := by
    rw [hforward.chains]
    show r₁.chains ++ _ = _
    rw [hpost.chains]
    show r₀.chains ++ _ ++ _ = _
    rw [hchains]
    rfl
  have hbefore : ∀ chain, (r₀.addChain postrouting .Postrouting).rulesOf chain = [] := by
    intro chain
    show (r₀.rules.filter _).map _ = []
    rw [hrules]
    rfl
  refine ⟨r₂, ?_, fun s => ?_, fun s => ?_⟩
  · rw [newRuleset, hsets, ← hr₂, ← hr₁, horder]
    rfl
  · obtain ⟨more, heq, hsegment⟩ := hpost.rules
    rw [hbefore, nil_append] at heq
    have hchain : r₂.rulesOf postrouting = more := by
      rw [hforward.others _ (by decide)]
      exact heq
    rw [NftRuleset.accepts, hboth, hsame, ← hm]
    show (evalChain m .Drop (r₂.rulesOf postrouting) s == .Accept && true) = true ↔ _
    rw [Bool.and_true, beq_iff_eq, hchain]
    exact hsegment.admits s
  · obtain ⟨more, heq, hsegment⟩ := hforward.rules
    have hnone : (r₁.addChain forward .Forward).rulesOf forward = [] :=
      (hpost.others forward (by decide)).trans (hbefore forward)
    rw [hnone, nil_append] at heq
    rw [NftRuleset.accepts, hboth, hsame, ← hm]
    show (evalChain m .Drop (r₂.rulesOf forward) s == .Accept && true) = true ↔ _
    rw [Bool.and_true, beq_iff_eq, heq]
    exact hsegment.admits s

/-- The families and their sets, as the configuration wants them. -/
theorem lanSets_serve {ranges4 ranges6 : List (Addr × Addr)} (order : ByteOrder) (cfg : Config)
    (hdoc4 : Documented net lanPrefixes4 ranges4) (hdoc6 : Documented net lanPrefixes6 ranges6) :
    ∃ r₀ lan, lanSets net cfg = some (r₀, lan) ∧ (r₀.chains = [] ∧ r₀.rules = []) ∧
    (lan ≠ [] → Matches ⟨order, r₀.sets.zip r₀.elems⟩ (matchSet .TransportHeader 2 2 lanDnsPorts) ToDnsPort) ∧
    (∀ family ∈ lan, Serves ⟨order, r₀.sets.zip r₀.elems⟩ family) ∧ lan = if cfg.AllowLAN then lanFamilies else [] := by
  cases hlan : cfg.AllowLAN with
  | false =>
    refine ⟨⟨[], [], [], []⟩, [], ?_, ⟨rfl, rfl⟩, fun h => absurd rfl h, nofun, rfl⟩
    rw [lanSets, hlan]
    rfl
  | true =>
    obtain ⟨elems4, h4⟩ : ∃ elems4, prefixElements net lanPrefixes4 = some elems4 :=
      ⟨_, congrArg (Option.map _) hdoc4.built⟩
    obtain ⟨elems6, h6⟩ : ∃ elems6, prefixElements net lanPrefixes6 = some elems6 :=
      ⟨_, congrArg (Option.map _) hdoc6.built⟩
    refine ⟨⟨[lan4, lan6, lanDnsPorts], [elems4, elems6, lanPortElements], [], []⟩, lanFamilies, ?_, ⟨rfl, rfl⟩,
      fun _ => matches_lanPorts rfl, ?_, rfl⟩
    · rw [lanSets, hlan, h4, h6]
      rfl
    · intro family hfamily
      rw [lanFamilies, mem_cons, mem_singleton] at hfamily
      rcases hfamily with rfl | rfl
      · refine serves_family hdoc4 h4 rfl rfl rfl (.inl rfl) fun bytes hbytes => inLan_v4 ?_
        rw [is4_addrFromSlice, hbytes]
        rfl
      · refine serves_family hdoc6 h6 rfl rfl rfl (.inr rfl) fun bytes hbytes => inLan_v6 ?_
        rw [is4_addrFromSlice, hbytes]
        rfl

/-- Without a LAN nothing of it is accepted. -/
theorem lan_part (allowed forwarded : Bool) (p : Packet) :
    ((∀ family ∈ if allowed then lanFamilies else [], ∀ proto ∈ [IPPROTO_TCP, IPPROTO_UDP], ¬Blocks family proto p) ∧
    ((∃ family ∈ if allowed then lanFamilies else [], Allows forwarded family p) ∨ False)) ↔
    allowed = true ∧ (forwarded = true → FromLan p) ∧ ToLan p ∧ ¬Dns p := by
  cases allowed with
  | false =>
    constructor
    · rintro ⟨-, ⟨_, hno, -⟩ | hno⟩
      · cases hno
      · cases hno
    · rintro ⟨hno, -⟩
      cases hno
  | true => exact (lan_policy forwarded).trans (and_iff_right rfl).symm

/-- Whatever configuration is read, the ruleset lets out and through what the policy says, and its sets hold the
addresses of their prefixes. -/
theorem guard_exact (net : Netip) (sets : IPSets) (order : ByteOrder) (raw : Except Bytes RawConfig) (cfg : Config)
    (ranges4 ranges6 : List (Addr × Addr)) (hdoc4 : Documented sets lanPrefixes4 ranges4)
    (hdoc6 : Documented sets lanPrefixes6 ranges6) (hparse : parseConfig net raw = .ok cfg) : (∃ r, newRuleset sets order cfg = some r ∧
    (∀ s : State, r.accepts order .Postrouting s = true ↔ LetsOut cfg s.packet) ∧
    ∀ s : State, r.accepts order .Forward s = true ↔ LetsThrough cfg s.packet) ∧
    ∀ (prefixes : List Prefix) (ranges : List (Addr × Addr)) (elems : List SetElement),
    Documented sets prefixes ranges → prefixElements sets prefixes = some elems →
    ∀ a : Addr, intervalContains elems (AsSlice a) = true ↔ ∃ range ∈ prefixes, range.Contains a := by
  refine ⟨?_, fun prefixes ranges elems hdoc hbuilt => elements_hold hdoc hbuilt⟩
  obtain ⟨r₀, lan, hsets, hempty, hports, hserves, rfl⟩ := lanSets_serve order cfg hdoc4 hdoc6
  obtain ⟨r, hr, hout, hthrough⟩ := accepts_iff hsets hempty (parseConfig_named hparse) hports hserves
  refine ⟨r, hr, fun s => (hout s).trans ?_, fun s => (hthrough s).trans ?_⟩
  · rw [lan_part, forall_prop_of_false (nomatch ·), true_and, LetsOut]
  · rw [lan_part, forall_prop_of_true rfl, LetsThrough]

/-- The configuration of a tun `tun`, of a bridge `br` and of a LAN. -/
def lanRawConfig : RawConfig := ⟨true, [116, 117, 110], [], [98, 114], 9090, false⟩

/-- That configuration, read. -/
def lanConfig : Config := ⟨true, [116, 117, 110], [], [98, 114], 9090, false⟩

theorem guard_of_lan : ∃ r, newRuleset lanBuilder .little lanConfig = some r ∧
    (∀ s : State, r.accepts .little .Postrouting s = true ↔ LetsOut lanConfig s.packet) ∧
    ∀ s : State, r.accepts .little .Forward s = true ↔ LetsThrough lanConfig s.packet :=
  (guard_exact ⟨fun _ => none, fun _ => none⟩ lanBuilder .little (.ok lanRawConfig) lanConfig _ _ documented_lan4 documented_lan6 rfl).1

end Whole

end Throne.Core.Guard
