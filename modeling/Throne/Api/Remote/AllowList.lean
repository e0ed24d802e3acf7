import Throne.Api.Remote.Config

/-!
# Which allow lists restrict

An entry that `parseAllowList` keeps names the subnet it is kept as, or a larger one. An entry that it
drops restricts nothing, and a list of which nothing is kept lets everyone in, so the list restricts
exactly when one of its entries can be read and is written in full.
-/

namespace Throne.Api.Remote

open List

variable {setAddress6 : List Char → Option (BitVec 128)}

/-- An entry that `parseSubnet` reads. -/
def WellFormed (setAddress6 : List Char → Option (BitVec 128)) (entry : List Char) : Prop := (parseSubnet setAddress6 entry).isSome = true

/-- The address lies in the address or subnet that the entry names. -/
def Names (setAddress6 : List Char → Option (BitVec 128)) (entry : List Char) (peer : HostAddress) : Prop :=
  ∃ subnet ∈ parseSubnet setAddress6 entry, peer.isInSubnet subnet.1 subnet.2 = true

instance (entry : List Char) (peer : HostAddress) : Decidable (Names setAddress6 entry peer) :=
  inferInstanceAs (Decidable (∃ subnet ∈ parseSubnet setAddress6 entry, peer.isInSubnet subnet.1 subnet.2 = true))

instance (entry : List Char) : Decidable (WellFormed setAddress6 entry) :=
  inferInstanceAs (Decidable ((parseSubnet setAddress6 entry).isSome = true))

/-! ## Entries without a netmask -/

theorem shiftLeft_shiftRight {w : Nat} (v : BitVec w) (k : Nat) : ((v >>> k) <<< k) >>> k = v >>> k := by
  ext i hi
  simp only [BitVec.getElem_ushiftRight, BitVec.getLsbD_shiftLeft, BitVec.getLsbD_ushiftRight]
  rcases Nat.lt_or_ge (k + i) w with hlt | hge
  · have hsub : k + (k + i - k) = k + i := by omega
    have hnot : ¬k + i < k := by omega
    rw [hsub, decide_eq_true hlt, decide_eq_false hnot]
    rfl
  · rw [BitVec.getLsbD_of_ge v (k + i) hge, decide_eq_false (Nat.not_lt.2 hge)]
    rfl

variable {entry : List Char}

theorem takeWhile_host (h : entry.contains '/' = false) (rest : List Char) :
    (entry ++ '/' :: rest).takeWhile (· ≠ '/') = entry ∧ (entry ++ '/' :: rest).dropWhile (· ≠ '/') = '/' :: rest ∧
    entry.takeWhile (· ≠ '/') = entry := by
  have hall : ∀ c ∈ entry, decide (c ≠ '/') = true := by
    intro c hc
    rw [decide_eq_true_eq]
    rintro rfl
    rw [contains_eq_mem, decide_eq_false_iff_not] at h
    exact h hc
  refine ⟨?_, ?_, takeWhile_eq_self_iff.2 hall⟩
  · rw [takeWhile_append_of_pos hall]
    simp
  · rw [dropWhile_append_of_pos hall]
    simp

theorem parseSubnet_bare (h : entry.contains '/' = false) : parseSubnet setAddress6 entry =
    if entry.contains ':' then ipv6Subnet setAddress6 entry none else ipv4Subnet entry none := by
  obtain ⟨-, -, hself⟩ := takeWhile_host h []
  have hmask : givenNetmask entry = some none := if_pos h
  rw [parseSubnet, hmask, hself]
  rfl

theorem parseSubnet_with {mask : List Char} {netmask : Nat} (h : entry.contains '/' = false)
    (hdot : mask.contains '.' = false) (hmask : toUInt mask = some netmask) : parseSubnet setAddress6 (entry ++ '/' :: mask) =
    if entry.contains ':' then ipv6Subnet setAddress6 entry (some netmask) else ipv4Subnet entry (some netmask) := by
  obtain ⟨htake, hdrop, -⟩ := takeWhile_host h mask
  have hgiven : givenNetmask (entry ++ '/' :: mask) = some (some netmask) := by
    have hslash : ¬(entry ++ '/' :: mask).contains '/' = false := by simp
    rw [givenNetmask, if_neg hslash, hdrop, tail_cons, hdot, Bool.and_false, if_neg Bool.false_ne_true, hmask]
    rfl
  rw [parseSubnet, hgiven, htake]
  rfl

theorem toOctets_length {text : List Char} {octets : List Nat} (h : toOctets text = some octets) : octets.length ≤ 4 := by
  unfold toOctets at h
  extract_lets parts kept at h
  split at h
  next => exact absurd h (Option.some_ne_none _).symm
  next hlength =>
    have hkept : kept.length ≤ parts.length := by
      show (if parts.getLast? = some [] then parts.dropLast else parts).length ≤ parts.length
      split
      · rw [length_dropLast]
        exact Nat.sub_le parts.length 1
      · exact Nat.le_refl _
    split at h
    next => exact absurd h (Option.some_ne_none _).symm
    next =>
      rw [← Option.some.inj h]
      have := length_filterMap_le toOctet kept
      omega

/-- An IPv4 entry without a netmask is kept as one address of the subnet that it names. -/
theorem ipv4Subnet_bare {netStr : List Char} {subnet : HostAddress × Nat}
    (h : ipv4Subnet netStr (some 32) = some subnet) : ∃ wider, ipv4Subnet netStr none = some wider ∧
    ∀ peer : HostAddress, peer.isInSubnet subnet.1 subnet.2 = true → peer.isInSubnet wider.1 wider.2 = true := by
  rw [ipv4Subnet] at h
  obtain ⟨octets, hoctets, hsubnet⟩ := Option.bind_eq_some_iff.1 h
  have hlength := toOctets_length hoctets
  have hbits : ¬32 < 8 * octets.length := by omega
  refine ⟨_, by rw [ipv4Subnet, hoctets]; exact if_neg hbits, ?_⟩
  rw [← Option.some.inj hsubnet]
  intro peer hpeer
  cases peer with
  | ipv4 address =>
    have heq : address = ipv4OfOctets octets := by
      have := eq_of_beq hpeer
      simpa using this
    show (address >>> _ == _) = true
    rw [heq, beq_iff_eq]
    exact (shiftLeft_shiftRight _ _).symm
  | null | any | ipv6 value => cases hpeer

theorem ipv4Subnet_isSome {netStr : List Char} (h : (ipv4Subnet netStr none).isSome = true) : (ipv4Subnet netStr (some 32)).isSome = true := by
  obtain ⟨subnet, hsubnet⟩ := Option.isSome_iff_exists.1 h
  rw [ipv4Subnet] at hsubnet
  obtain ⟨octets, hoctets, -⟩ := Option.bind_eq_some_iff.1 hsubnet
  rw [ipv4Subnet, hoctets]
  rfl

/-! ## Kept entries -/

theorem keptSubnet_masked (hfull : writtenInFull entry = true) (hslash : entry.contains '/' = true) :
    keptSubnet setAddress6 entry = parseSubnet setAddress6 entry := by
  rw [keptSubnet, hfull, if_neg Bool.true_eq_false.mp, hslash, if_pos rfl]

theorem keptSubnet_bare (hfull : writtenInFull entry = true) (hslash : entry.contains '/' = false) :
    keptSubnet setAddress6 entry = if entry.contains ':' then ipv6Subnet setAddress6 entry (some 128) else ipv4Subnet entry (some 32) := by
  obtain ⟨-, -, hself⟩ := takeWhile_host hslash []
  have h128 : toUInt ['1', '2', '8'] = some 128 := by decide
  have h32 : toUInt ['3', '2'] = some 32 := by decide
  rw [keptSubnet, hfull, if_neg Bool.true_eq_false.mp, hslash, if_neg Bool.false_ne_true, hself]
  split
  next hcolon => rw [parseSubnet_with hslash rfl h128, if_pos hcolon]
  next hcolon => rw [parseSubnet_with hslash rfl h32, if_neg hcolon]

/-- A kept entry is written in full and names the subnet it is kept as, or a larger one. -/
theorem parse_of_kept {subnet : HostAddress × Nat} (h : keptSubnet setAddress6 entry = some subnet) :
    writtenInFull entry = true ∧ ∃ wider, parseSubnet setAddress6 entry = some wider ∧
    ∀ peer : HostAddress, peer.isInSubnet subnet.1 subnet.2 = true → peer.isInSubnet wider.1 wider.2 = true := by
  cases hfull : writtenInFull entry with
  | false =>
    rw [keptSubnet, hfull, if_pos rfl] at h
    exact absurd h (Option.some_ne_none _).symm
  | true =>
    refine ⟨rfl, ?_⟩
    cases hslash : entry.contains '/' with
    | true =>
      rw [keptSubnet_masked hfull hslash] at h
      exact ⟨subnet, h, fun _ hpeer => hpeer⟩
    | false =>
      rw [keptSubnet_bare hfull hslash] at h
      rw [parseSubnet_bare hslash]
      split
      next hcolon =>
        rw [if_pos hcolon] at h
        exact ⟨subnet, h, fun _ hpeer => hpeer⟩
      next hcolon =>
        rw [if_neg hcolon] at h
        exact ipv4Subnet_bare h

/-- An entry that can be read and is written in full is kept. -/
theorem kept_of_parse (hread : WellFormed setAddress6 entry) (hfull : writtenInFull entry = true) : (keptSubnet setAddress6 entry).isSome = true := by
  rw [WellFormed] at hread
  cases hslash : entry.contains '/' with
  | true =>
    rw [keptSubnet_masked hfull hslash]
    exact hread
  | false =>
    rw [keptSubnet_bare hfull hslash]
    rw [parseSubnet_bare hslash] at hread
    split
    next hcolon =>
      rw [if_pos hcolon] at hread
      exact hread
    next hcolon =>
      rw [if_neg hcolon] at hread
      exact ipv4Subnet_isSome hread

/-- The list keeps nothing exactly when no entry can be read and is written in full. -/
theorem parseAllowList_eq_nil_iff (text : List Char) : parseAllowList setAddress6 text = [] ↔
    ¬∃ entry ∈ entries text, WellFormed setAddress6 entry ∧ writtenInFull entry = true := by
  rw [parseAllowList, filterMap_eq_nil_iff]
  constructor
  · rintro hnone ⟨entry, hentry, hread, hfull⟩
    have hkept := kept_of_parse hread hfull
    rw [hnone entry hentry] at hkept
    cases hkept
  · intro hnone entry hentry
    cases hkept : keptSubnet setAddress6 entry with
    | none => rfl
    | some subnet =>
      obtain ⟨hfull, wider, hwider, -⟩ := parse_of_kept hkept
      exact absurd ⟨entry, hentry, Option.isSome_iff_exists.2 ⟨wider, hwider⟩, hfull⟩ hnone

/-- An entry that names an IPv6 address is written in full. -/
theorem names_ipv6 {value : BitVec 128} (h : Names setAddress6 entry (.ipv6 value)) : writtenInFull entry = true := by
  obtain ⟨subnet, hsubnet, hin⟩ := h
  rw [Option.mem_def, parseSubnet] at hsubnet
  obtain ⟨given, -, hsubnet⟩ := Option.bind_eq_some_iff.1 hsubnet
  split at hsubnet
  next hcolon => rw [writtenInFull, hcolon, Bool.true_or]
  next =>
    rw [ipv4Subnet] at hsubnet
    obtain ⟨octets, -, hsubnet⟩ := Option.bind_eq_some_iff.1 hsubnet
    obtain ⟨-, hsubnet⟩ := Option.ite_none_left_eq_some.1 hsubnet
    rw [← Option.some.inj hsubnet] at hin
    cases hin

/-! ## The listener -/

theorem listen_allow (overlay : Overlay) (effective : Effective) : (overlay.listen effective).config.allow = effective.config.allow := by
  rw [Overlay.listen]
  split <;> rfl

theorem useKeyFile_allow (overlay : Overlay) (effective : Effective) : (overlay.useKeyFile effective).config.allow = effective.config.allow := by
  rw [Overlay.useKeyFile]
  split <;> rfl

/-- The configuration's list comes from the text. -/
theorem effectiveConfig_allow {readers : Readers} {settings : Settings} {overlay : Overlay}
    {text : List Char} (h : allowText settings overlay = some text) :
    (effectiveConfig readers settings overlay).config.allow = parseAllowList readers.setAddress6 text := by
  rw [allowText] at h
  rw [effectiveConfig]
  split at h
  next hgui =>
    rw [if_pos hgui, ← Option.some.inj h]
    rfl
  next hheadless =>
    rw [if_neg hheadless]
    split at h
    next => exact absurd h (Option.some_ne_none _).symm
    next hon =>
      rw [if_neg hon, Overlay.restrict]
      split at h
      next => rw [← Option.some.inj h]
      next =>
        obtain ⟨henable, htext⟩ := Option.ite_none_right_eq_some.1 h
        show (overlay.useKeyFile _).config.allow = _
        rw [useKeyFile_allow, listen_allow, Overlay.defaultListener, if_pos (show (configFromSettings readers settings).enabled = true from henable),
          ← Option.some.inj htext]
        rfl

/-- Some IPv6 peer is not local. -/
theorem exists_remote_peer (worker : Worker) : ∃ value : BitVec 128, worker.isLocal (.ipv6 value) = false := by
  rcases Decidable.em (worker.localAddress = .ipv6 2) with htwo | htwo
  · refine ⟨3, ?_⟩
    rw [Worker.isLocal, htwo]
    decide
  · refine ⟨2, ?_⟩
    have hloop : (HostAddress.ipv6 2).isLoopback = false := by decide
    rw [Worker.isLocal, hloop, Bool.false_or, Bool.and_eq_false_iff]
    exact .inr (beq_eq_false_iff_ne.2 (Ne.symm htwo))

/-- A listener on the LAN whose configuration comes from an allow-list text lets in only peers that a
well-formed entry names exactly when some entry can be read and is written in full: otherwise nothing
is kept of the text and everyone is let in. -/
theorem allow_list_restricts_iff (readers : Readers) (settings : Settings) (overlay : Overlay)
    (text : List Char) (worker : Worker) (htext : allowText settings overlay = some text)
    (hconfig : worker.config = (effectiveConfig readers settings overlay).config) (hlan : worker.config.lan = true) :
    (∀ peer, worker.isLocal peer = false → worker.isAllowed peer = true →
    ∃ entry ∈ entries text, Names readers.setAddress6 entry peer) ↔ ∃ entry ∈ entries text,
    WellFormed readers.setAddress6 entry ∧ writtenInFull entry = true := by
  have hallow : worker.config.allow = parseAllowList readers.setAddress6 text := by
    rw [hconfig]
    exact effectiveConfig_allow htext
  have hchecked : ∀ peer, worker.isLocal peer = false → worker.isAllowed peer = if (parseAllowList readers.setAddress6 text).isEmpty then true
        else (parseAllowList readers.setAddress6 text).any fun subnet =>
          peer.isInSubnet subnet.1 subnet.2 := by
    intro peer hremote
    rw [Worker.isAllowed, hremote, if_neg Bool.false_ne_true, hlan, if_neg (by decide), hallow]
  constructor
  · intro hrestricts
    by_contra hnone
    have hempty := (parseAllowList_eq_nil_iff text).2 hnone
    obtain ⟨value, hremote⟩ := exists_remote_peer worker
    have hin : worker.isAllowed (.ipv6 value) = true := by
      rw [hchecked _ hremote, hempty]
      rfl
    obtain ⟨entry, hentry, hnames⟩ := hrestricts _ hremote hin
    obtain ⟨subnet, hsubnet, -⟩ := id hnames
    exact hnone ⟨entry, hentry, Option.isSome_iff_exists.2 ⟨subnet, hsubnet⟩, names_ipv6 hnames⟩
  · intro hsome peer hremote hin
    rw [hchecked peer hremote] at hin
    split at hin
    next hempty =>
      rw [List.isEmpty_iff] at hempty
      exact absurd hsome ((parseAllowList_eq_nil_iff text).1 hempty)
    next =>
      obtain ⟨subnet, hsubnet, hpeer⟩ := any_eq_true.1 hin
      obtain ⟨entry, hentry, hkept⟩ := mem_filterMap.1 hsubnet
      obtain ⟨-, wider, hwider, hsub⟩ := parse_of_kept hkept
      exact ⟨entry, hentry, wider, hwider, hsub peer hpeer⟩

/-- A program without flags that listens on the LAN with this allow list. -/
def lanSettings (allow : List Char) : Settings :=
  { remoteApiEnable := true, remoteApiLan := true, remoteApiAdminLan := false,
    remoteApiPort := 9095, remoteApiKey := [], remoteApiAllow := allow }

def noOverlay : Overlay :=
  { headless := false, enabled := none, address := .null, port := none, keyFile := [],
    adminLan := none, allow := none, listenSource := .default, key := [], defaultKeyFile := [] }

/-- Readers that read nothing, which is enough for IPv4 lists. -/
def ipv4Readers : Readers := ⟨fun _ => none, fun _ => []⟩

def lanWorker (allow : List Char) : Worker := ⟨(effectiveConfig ipv4Readers (lanSettings allow) noOverlay).config, .null⟩

/-- `192.168.1.0/24, 10`: the second entry is dropped and the first one restricts. -/
theorem allow_list_restricts_iff_home : (∀ peer, (lanWorker "192.168.1.0/24, 10".toList).isLocal peer = false →
    (lanWorker "192.168.1.0/24, 10".toList).isAllowed peer = true →
    ∃ entry ∈ entries "192.168.1.0/24, 10".toList, Names ipv4Readers.setAddress6 entry peer) ↔ ∃ entry ∈ entries "192.168.1.0/24, 10".toList,
    WellFormed ipv4Readers.setAddress6 entry ∧ writtenInFull entry = true :=
  allow_list_restricts_iff ipv4Readers (lanSettings "192.168.1.0/24, 10".toList) noOverlay
    "192.168.1.0/24, 10".toList (lanWorker "192.168.1.0/24, 10".toList) rfl rfl rfl

/-- The list `10` lets `198.51.100.7` in, which no entry of it names. -/
theorem allow_list_widened : entries "10".toList ≠ [] ∧ (lanWorker "10".toList).config.lan = true ∧
    (lanWorker "10".toList).isLocal (.ipv4 0xc6336407) = false ∧ (lanWorker "10".toList).isAllowed (.ipv4 0xc6336407) = true ∧
    ¬∃ entry ∈ entries "10".toList, Names ipv4Readers.setAddress6 entry (.ipv4 0xc6336407) := by
  decide

end Throne.Api.Remote
