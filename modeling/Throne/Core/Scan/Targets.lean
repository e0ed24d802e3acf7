import Throne.Core.Netip
import Throne.Lib.Permutation
import Throne.Lib.Tiling

/-!
# Scan targets

The scanner numbers its targets: `NewTargets` turns the entries of a specification into ranges of
consecutive positions, and `Targets.At` computes the target of a position without listing the others.
An entry is an address prefix with ports. A prefix that is small enough is enumerated, a larger one
is sampled through a keyed permutation of its host part; a second permutation shuffles the positions.

Words are natural numbers with an explicit reduction modulo `2 ^ 64`; addresses are bit vectors of
their family's length. Parsing of addresses and prefixes is a parameter.
-/

namespace Throne.Core.Scan

open Lib.Permutation Lib.Tiling List

/-! ## Specification -/

structure Entry where
  cidr : String
  /-- Zero stands for no port. -/
  port : Int32

structure Spec where
  entries : List Entry
  defaultPorts : List Int32
  portMode : String
  maxHostsPerEntry : Int64
  shuffle : Bool
  seed : UInt64

structure Target where
  addr : Addr
  port : Nat
  deriving DecidableEq

def maxTargetTotal : Nat := 2 ^ 62

def defaultSampleSize : Nat := 1024

/-- Wider entries are always sampled. -/
def maxEnumeratedBits : Nat := 32

def mixerRounds : Nat := 4

/-! ## Keyed mixing -/

/-- A 64-bit word. -/
def wrap (n : Nat) : Nat := n % 2 ^ 64

def bitMask (width : Nat) : Nat :=
  if 64 ≤ width then 2 ^ 64 - 1 else 2 ^ width - 1

/-- One step of the generator: the new state and the word drawn from it. -/
def splitmix64 (state : Nat) : Nat × Nat :=
  let state := wrap (state + 0x9e3779b97f4a7c15)
  let z := state
  let z := wrap ((z ^^^ (z >>> 30)) * 0xbf58476d1ce4e5b9)
  let z := wrap ((z ^^^ (z >>> 27)) * 0x94d049bb133111eb)
  (state, z ^^^ (z >>> 31))

/-- A keyed permutation of the numbers below `2 ^ width`. Each round has a constant to add and an odd
constant to multiply with. -/
structure Mixer where
  mask : Nat
  shift : Nat
  rounds : List (Nat × Nat)

/-- The constants of `n` rounds drawn from a state. -/
def drawRounds (mask : Nat) : Nat → Nat → List (Nat × Nat)
  | 0, _ => []
  | n + 1, state =>
    let (state, add) := splitmix64 state
    let (state, mul) := splitmix64 state
    (add &&& mask, (mul ||| 1) &&& mask) :: drawRounds mask n state

def newMixer (width : Nat) (key : Nat) : Mixer where
  mask := bitMask width
  shift := max 1 (width / 2)
  rounds := drawRounds (bitMask width) mixerRounds key

/-- One round of the mixer. -/
def Mixer.round (m : Mixer) (c : Nat × Nat) (x : Nat) : Nat :=
  let x := wrap (x + c.1) &&& m.mask
  let x := x ^^^ (x >>> m.shift)
  wrap (x * c.2) &&& m.mask

def Mixer.mix (m : Mixer) (x : Nat) : Nat :=
  m.rounds.foldl (fun x c => m.round c x) x

def prefixHash (p : Prefix) : Nat :=
  let h := (splitmix64 (p.addr.as16 / 2 ^ 64)).2
  let h := (splitmix64 (h ^^^ (p.addr.as16 % 2 ^ 64))).2
  (splitmix64 (h ^^^ p.bits ^^^ wrap (p.addr.bitLen <<< 8))).2

/-! ## Ranges -/

/-- The positions of one entry, from `start` up to the next range. -/
structure TargetRange where
  base : Addr
  hostBits : Nat
  sampled : Bool
  ports : List Nat
  start : Nat
  sampler : Mixer
  highKey : Nat

structure Targets where
  ranges : List TargetRange
  total : Nat
  shuffle : Bool
  order : Mixer
  sampledEntries : Nat
  invalidEntries : Nat

/-- The zero value of a mixer. -/
def Mixer.zero : Mixer := ⟨0, 0, [(0, 0), (0, 0), (0, 0), (0, 0)]⟩

def parseTargetPrefix (net : Netip) (text : String) : Option Prefix :=
  let text := trimSpace text
  let parsed : Option Prefix := match net.parsePrefix text with
    | some p => some p
    | none => (net.parseAddr text).map fun a => Prefix.ofAddr a.1
  parsed.map fun p => (if p.addr.is4In6 && 96 ≤ p.bits then p.unmapped else p).masked

/-- The ports of an entry. Never empty: port zero stands for no port. -/
def entryPorts (mode : String) (entryPort : Nat) (defaultPorts : List Nat) : List Nat :=
  let ports :=
    if mode = "ignore" then defaultPorts
    else if mode = "list" then
      if entryPort ≠ 0 then [entryPort] else []
    else if mode = "merge" then
      if entryPort = 0 then defaultPorts
      else entryPort :: defaultPorts.filter (· ≠ entryPort)
    else if entryPort ≠ 0 then [entryPort]
    else defaultPorts
  if ports.length = 0 then [0] else ports

/-- The valid ports in order, the first of equal ones kept. -/
def normalizePorts (ports : List Int32) : List Nat :=
  let valid := ports.filter fun port => 1 ≤ port.toInt ∧ port.toInt ≤ 0xffff
  (valid.foldl (fun (out : List Nat) port =>
    if port.toInt.toNat ∈ out then out else out ++ [port.toInt.toNat]) [])

def saturatingMul (a b : Nat) : Nat :=
  let high := a * b / 2 ^ 64
  let low := a * b % 2 ^ 64
  if high ≠ 0 ∨ maxTargetTotal < low then maxTargetTotal else low

/-- The host limit of an entry: a wide entry without one is sampled. -/
def entryLimit (limit hostBits : Nat) : Nat :=
  if limit = 0 ∧ maxEnumeratedBits < hostBits then defaultSampleSize else limit

/-- How many hosts of an entry are scanned and whether they are a sample. -/
def entryHosts (limit hostBits : Nat) : Nat × Bool :=
  let hosts := if hostBits < 64 then 2 ^ hostBits else 0
  if 0 < entryLimit limit hostBits ∧ (64 ≤ hostBits ∨ entryLimit limit hostBits < hosts) then
    (entryLimit limit hostBits, true)
  else (hosts, false)

/-- The range of a prefix that starts at `start`. -/
def newRange (seed : Nat) (p : Prefix) (sampled : Bool) (ports : List Nat) (start : Nat) :
    TargetRange :=
  let key := seed ^^^ prefixHash p
  { base := p.addr
    hostBits := p.hostBits
    sampled := sampled
    ports := ports
    start := start
    sampler := if sampled then newMixer (min p.hostBits 64) key else Mixer.zero
    highKey := if sampled then (splitmix64 key).2 else 0 }

/-- The host limit of the specification, zero for none. -/
def Spec.limit (spec : Spec) : Nat :=
  if 0 < spec.maxHostsPerEntry.toInt then spec.maxHostsPerEntry.toInt.toNat else 0

/-- The prefix and the ports of an entry, if the entry is valid. -/
def validEntry (net : Netip) (spec : Spec) (entry : Entry) : Option (Prefix × List Nat) :=
  match parseTargetPrefix net entry.cidr with
  | none => none
  | some p =>
    if entry.port.toInt < 0 ∨ 0xffff < entry.port.toInt then none
    else some (p, entryPorts spec.portMode entry.port.toInt.toNat (normalizePorts spec.defaultPorts))

/-- The body of the loop over the entries in `NewTargets`. -/
def addEntry (net : Netip) (spec : Spec) (t : Targets) (entry : Entry) : Targets :=
  match validEntry net spec entry with
  | none => { t with invalidEntries := t.invalidEntries + 1 }
  | some (p, ports) =>
    let (hosts, sampled) := entryHosts spec.limit p.hostBits
    let count := min (saturatingMul hosts ports.length) (maxTargetTotal - t.total)
    if count = 0 then t
    else
      { t with
        ranges := t.ranges ++ [newRange spec.seed.toNat p sampled ports t.total]
        total := t.total + count
        sampledEntries := if sampled then t.sampledEntries + 1 else t.sampledEntries }

def NewTargets (net : Netip) (spec : Spec) : Targets :=
  let t := spec.entries.foldl (addEntry net spec) ⟨[], 0, spec.shuffle, Mixer.zero, 0, 0⟩
  if 1 < t.total then { t with order := newMixer (Nat.size (t.total - 1)) spec.seed.toNat } else t

/-- The low word `address` adds to the base: a sample is drawn through the mixer. -/
def TargetRange.low (r : TargetRange) (hostIndex : Nat) : Nat :=
  if r.sampled then r.sampler.mix hostIndex else hostIndex

/-- The high word `address` adds to the base: a sample also varies the bits above the low word. -/
def TargetRange.high (r : TargetRange) (hostIndex : Nat) : Nat :=
  if r.sampled && 64 < r.hostBits then
    (splitmix64 (hostIndex ^^^ r.highKey)).2 &&& bitMask (r.hostBits - 64)
  else 0

/-- The sum of a 128-bit number and a pair of words, word by word with the carry. -/
def addWords (base high low : Nat) : Nat :=
  let sumLow := wrap (base % 2 ^ 64 + low)
  let carry := (base % 2 ^ 64 + low) / 2 ^ 64
  let sumHigh := wrap (base / 2 ^ 64 + high + carry)
  sumHigh * 2 ^ 64 + sumLow

/-- The address of a host of a range. -/
def TargetRange.address (r : TargetRange) (hostIndex : Nat) : Addr :=
  match r.base with
  | .v4 value => .v4 (value + BitVec.ofNat 32 (r.low hostIndex))
  | .v6 value => .v6 (BitVec.ofNat 128 (addWords value.toNat (r.high hostIndex) (r.low hostIndex)))

/-- Cycle walking over the enclosing power of two. The bound on the walk is the size of that power,
which `exists_walk` shows to be enough. -/
def Targets.permute (t : Targets) (position : Nat) : Option Nat :=
  if t.total ≤ 1 then some 0
  else walk t.order.mix t.total (t.order.mask + 1) position

/-- The target of a position of the unshuffled order, with the index of its range. -/
def Targets.locate (t : Targets) (globalPos : Nat) : Option (Nat × Target) :=
  match t.ranges.findIdx fun r => decide (globalPos < r.start) with
  | 0 => none
  | index + 1 =>
    match t.ranges[index]? with
    | none => none
    | some r =>
      let localPos := globalPos - r.start
      let portCount := r.ports.length
      match r.ports[localPos % portCount]? with
      | none => none
      | some port => some (index, ⟨r.address (localPos / portCount), port⟩)

/-- The target of a position with the index of its range. `none` stands for a failed range search, a
port index out of range or a walk that does not end. -/
def Targets.at? (t : Targets) (position : Nat) : Option (Nat × Target) :=
  if t.shuffle then (t.permute position).bind t.locate else t.locate position

def Targets.At (t : Targets) (position : Nat) : Option Target :=
  (t.at? position).map (·.2)

/-! ## The mixer is a permutation -/

variable {w : Nat}

theorem bitMask_eq (hw : w ≤ 64) : bitMask w = 2 ^ w - 1 := by
  unfold bitMask
  split
  · next h =>
    have e : w = 64 := by omega
    rw [e]
  · rfl

theorem wrap_and_mask (hw : w ≤ 64) (n : Nat) : wrap n &&& (2 ^ w - 1) = n % 2 ^ w := by
  rw [Nat.and_two_pow_sub_one_eq_mod, wrap, Nat.mod_mod_of_dvd n (Nat.pow_dvd_pow 2 hw)]

theorem permBelow_round (hw : w ≤ 64) {m : Mixer} (hmask : m.mask = 2 ^ w - 1)
    (hshift : 0 < m.shift) {c : Nat × Nat} (hc : c.2 % 2 = 1) : PermBelow (2 ^ w) (m.round c) := by
  have hround : m.round c = fun x =>
    (fun y => y * c.2 % 2 ^ w) ((fun y => y ^^^ (y >>> m.shift)) ((x + c.1) % 2 ^ w)) := by
    funext x
    simp only [Mixer.round, hmask, wrap_and_mask hw]
  rw [hround]
  exact (permBelow_oddMul w hc).comp ((permBelow_xorShift w hshift).comp (permBelow_add (Nat.two_pow_pos w) c.1))

theorem drawRounds_odd {mask : Nat} (hmask : mask % 2 = 1) : ∀ (n state : Nat), ∀ c ∈ drawRounds mask n state, c.2 % 2 = 1 := by
  intro n
  induction n with
  | zero => intro state c hc; simp [drawRounds] at hc
  | succ n ih =>
    intro state c hc
    simp only [drawRounds, mem_cons] at hc
    rcases hc with rfl | hc
    · have h0 : (((splitmix64 (splitmix64 state).1).2 ||| 1) &&& mask).testBit 0 = true := by
        rw [Nat.testBit_and, Nat.testBit_or]
        simp [Nat.testBit_zero, hmask]
      simpa [Nat.testBit_zero] using h0
    · exact ih _ c hc

/-- The mixer of a width from 1 to 64 permutes the numbers of that width, whatever its key. -/
theorem permBelow_mix (hpos : 0 < w) (hw : w ≤ 64) (key : Nat) : PermBelow (2 ^ w) (newMixer w key).mix := by
  have hmask : (newMixer w key).mask = 2 ^ w - 1 := bitMask_eq hw
  have hshift : 0 < (newMixer w key).shift := Nat.lt_of_lt_of_le Nat.one_pos (Nat.le_max_left _ _)
  have hodd : (2 ^ w - 1) % 2 = 1 := by
    obtain ⟨v, rfl⟩ := Nat.exists_eq_succ_of_ne_zero (Nat.pos_iff_ne_zero.1 hpos)
    have h := Nat.two_pow_pos v
    rw [Nat.pow_succ]
    omega
  have hrounds : ∀ c ∈ (newMixer w key).rounds, c.2 % 2 = 1 :=
    drawRounds_odd (by rw [bitMask_eq hw]; exact hodd) mixerRounds key
  have hfold : ∀ cs : List (Nat × Nat), (∀ c ∈ cs, c.2 % 2 = 1) → PermBelow (2 ^ w) fun x => cs.foldl (fun x c => (newMixer w key).round c x) x := by
    intro cs
    induction cs with
    | nil => exact fun _ => ⟨fun hx => hx, fun _ _ h => h⟩
    | cons c cs ih =>
      intro hcs
      have hfirst := permBelow_round hw hmask hshift (hcs c mem_cons_self)
      exact (ih fun d hd => hcs d (mem_cons_of_mem c hd)).comp hfirst
  exact hfold _ hrounds

/-! ## Hosts and ports of an entry -/

theorem saturatingMul_eq (a b : Nat) : saturatingMul a b = min (a * b) maxTargetTotal := by
  unfold saturatingMul
  have hdm := Nat.div_add_mod (a * b) (2 ^ 64)
  simp only
  split
  · next h =>
    rcases h with hhigh | hlow
    · have h1 : 1 ≤ a * b / 2 ^ 64 := Nat.pos_of_ne_zero hhigh
      have h2 : 2 ^ 64 ≤ a * b := by omega
      simp only [maxTargetTotal]
      omega
    · simp only [maxTargetTotal] at *
      omega
  · next h =>
    rw [not_or, not_not] at h
    obtain ⟨hhigh, hlow⟩ := h
    simp only [maxTargetTotal] at *
    omega

theorem Spec.limit_lt (spec : Spec) : spec.limit < 2 ^ 64 := by
  unfold Spec.limit
  have h := spec.maxHostsPerEntry.toInt_lt
  split <;> omega

theorem entryLimit_facts {limit : Nat} (hostBits : Nat) (hlimit : limit < 2 ^ 64) :
    entryLimit limit hostBits < 2 ^ 64 ∧ (32 < hostBits → 0 < entryLimit limit hostBits) := by
  unfold entryLimit maxEnumeratedBits defaultSampleSize
  split <;> omega

/-- An entry always has a host; enumerated hosts are all of them and fit a word; a sample is drawn
from a host part of at least one bit and does not exceed it. -/
theorem entryHosts_facts {limit : Nat} (hostBits : Nat) (hlimit : limit < 2 ^ 64) : 0 < (entryHosts limit hostBits).1 ∧
    ((entryHosts limit hostBits).2 = false → hostBits < 64 ∧ (entryHosts limit hostBits).1 = 2 ^ hostBits) ∧
    ((entryHosts limit hostBits).2 = true → 0 < hostBits ∧ (entryHosts limit hostBits).1 ≤ 2 ^ min hostBits 64) := by
  obtain ⟨hel, hwide⟩ := entryLimit_facts hostBits hlimit
  unfold entryHosts
  generalize entryLimit limit hostBits = el at *
  simp only
  by_cases h : 0 < el ∧ (64 ≤ hostBits ∨ el < if hostBits < 64 then 2 ^ hostBits else 0)
  · rw [if_pos h]
    obtain ⟨hpos, hcase⟩ := h
    refine ⟨hpos, by simp, fun _ => ?_⟩
    rcases Nat.lt_or_ge hostBits 64 with hlt | hge
    · rw [if_pos hlt] at hcase
      have hlim : el < 2 ^ hostBits := by omega
      refine ⟨?_, by rw [Nat.min_eq_left (Nat.le_of_lt hlt)]; exact Nat.le_of_lt hlim⟩
      by_contra hz
      have hz' : hostBits = 0 := by omega
      rw [hz'] at hlim
      omega
    · refine ⟨by omega, ?_⟩
      rw [Nat.min_eq_right hge]
      exact Nat.le_of_lt hel
  · rw [if_neg h]
    have hlt : hostBits < 64 := by
      by_contra hge
      exact h ⟨hwide (by omega), .inl (by omega)⟩
    rw [if_pos hlt]
    exact ⟨Nat.two_pow_pos _, fun _ => ⟨hlt, rfl⟩, by simp⟩

theorem normalizePorts_nodup (ports : List Int32) : (normalizePorts ports).Nodup := by
  unfold normalizePorts
  simp only
  generalize ports.filter _ = valid
  have hfold : ∀ (valid : List Int32) (out : List Nat), out.Nodup → (valid.foldl (fun (out : List Nat) port =>
        if port.toInt.toNat ∈ out then out else out ++ [port.toInt.toNat]) out).Nodup := by
    intro valid
    induction valid with
    | nil => exact fun _ h => h
    | cons port valid ih =>
      intro out h
      rw [foldl_cons]
      apply ih
      split
      · exact h
      · next hnew =>
        rw [nodup_append]
        refine ⟨h, nodup_singleton _, ?_⟩
        intro a ha b hb
        rw [mem_singleton] at hb
        subst hb
        exact fun hab => hnew (hab ▸ ha)
  exact hfold valid [] nodup_nil

theorem entryPorts_facts (mode : String) (entryPort : Nat) {defaultPorts : List Nat} (h : defaultPorts.Nodup) :
    0 < (entryPorts mode entryPort defaultPorts).length ∧ (entryPorts mode entryPort defaultPorts).Nodup := by
  unfold entryPorts
  simp only
  generalize hp : (if mode = "ignore" then defaultPorts
    else if mode = "list" then if entryPort ≠ 0 then [entryPort] else []
    else if mode = "merge" then
      if entryPort = 0 then defaultPorts else entryPort :: defaultPorts.filter (· ≠ entryPort)
    else if entryPort ≠ 0 then [entryPort] else defaultPorts) = ports
  have hnodup : ports.Nodup := by
    have hmerge : (entryPort :: defaultPorts.filter (· ≠ entryPort)).Nodup :=
      nodup_cons.2 ⟨by simp, h.filter _⟩
    rw [← hp]
    split
    · exact h
    · split
      · split <;> simp
      · split
        · split
          · exact h
          · exact hmerge
        · split
          · simp
          · exact h
  split
  · simp
  · next hne => exact ⟨Nat.pos_of_ne_zero hne, hnodup⟩

/-! ## Addresses of a range -/

theorem parseTargetPrefix_aligned {net : Netip} {text : String} {p : Prefix}
    (h : parseTargetPrefix net text = some p) : p.addr.toNat % 2 ^ p.hostBits = 0 := by
  obtain ⟨q, -, rfl⟩ := Option.map_eq_some_iff.1 h
  exact (Prefix.masked_facts _).2

/-- An offset within the host part stays inside the family's numbers. -/
theorem aligned_add_lt {base len hostBits offset : Nat} (hbase : base < 2 ^ len)
    (hle : hostBits ≤ len) (haligned : base % 2 ^ hostBits = 0) (hoff : offset < 2 ^ hostBits) :
    base + offset < 2 ^ len ∧ (base + offset) / 2 ^ hostBits = base / 2 ^ hostBits := by
  obtain ⟨q, rfl⟩ := Nat.dvd_of_mod_eq_zero haligned
  have hpos := Nat.two_pow_pos hostBits
  have hsplit : 2 ^ len = 2 ^ hostBits * 2 ^ (len - hostBits) := by
    rw [← Nat.pow_add, Nat.add_sub_cancel' hle]
  rw [hsplit] at hbase ⊢
  have hq : q + 1 ≤ 2 ^ (len - hostBits) := Nat.lt_of_mul_lt_mul_left hbase
  refine ⟨?_, ?_⟩
  · calc 2 ^ hostBits * q + offset < 2 ^ hostBits * q + 2 ^ hostBits := by omega
      _ = 2 ^ hostBits * (q + 1) := by rw [Nat.mul_add, Nat.mul_one]
      _ ≤ 2 ^ hostBits * 2 ^ (len - hostBits) := Nat.mul_le_mul_left _ hq
  · rw [Nat.mul_add_div hpos, Nat.mul_div_cancel_left q hpos, Nat.div_eq_of_lt hoff, Nat.add_zero]

theorem addWords_eq {base high low : Nat} (h : base + (high * 2 ^ 64 + low) < 2 ^ 128) : addWords base high low = base + (high * 2 ^ 64 + low) := by
  unfold addWords wrap
  simp only
  generalize hB : 2 ^ 64 = B at *
  have hB0 : 0 < B := by rw [← hB]; exact Nat.two_pow_pos 64
  have hsq : 2 ^ 128 = B * B := by rw [← hB, ← Nat.pow_add]
  have hdm := Nat.div_add_mod base B
  have hdm' := Nat.div_add_mod (base % B + low) B
  have hsum : (base / B + high + (base % B + low) / B) * B + (base % B + low) % B = base + (high * B + low) := by
    rw [Nat.add_mul, Nat.add_mul, Nat.mul_comm (base / B) B, Nat.mul_comm ((base % B + low) / B) B]
    omega
  have hword : base / B + high + (base % B + low) / B < B := by
    rw [hsq] at h
    have hle : (base / B + high + (base % B + low) / B) * B < B * B := by omega
    exact Nat.lt_of_mul_lt_mul_right hle
  rw [Nat.mod_eq_of_lt hword, hsum]

/-- The host part `address` adds to the base. -/
def TargetRange.offset (r : TargetRange) (hostIndex : Nat) : Nat := r.high hostIndex * 2 ^ 64 + r.low hostIndex

/-- What `NewTargets` ensures of a range that scans `hosts` hosts. -/
structure RangeOk (r : TargetRange) (hosts : Nat) : Prop where
  hostBits_le : r.hostBits ≤ r.base.bitLen
  aligned : r.base.toNat % 2 ^ r.hostBits = 0
  ports_pos : 0 < r.ports.length
  ports_nodup : r.ports.Nodup
  enumerated : r.sampled = false → r.hostBits < 64 ∧ hosts = 2 ^ r.hostBits
  drawn : r.sampled = true → 0 < r.hostBits ∧ hosts ≤ 2 ^ min r.hostBits 64 ∧ ∃ key, r.sampler = newMixer (min r.hostBits 64) key

section Range

variable {r : TargetRange} {hosts : Nat}

section

variable (hr : RangeOk r hosts)

include hr

/-- The low words of different hosts differ and stay within the host part. -/
theorem RangeOk.permBelow_low : hosts ≤ 2 ^ min r.hostBits 64 ∧ PermBelow (2 ^ min r.hostBits 64) r.low := by
  cases hs : r.sampled with
  | false =>
    obtain ⟨hlt, rfl⟩ := hr.enumerated hs
    have hlow : r.low = fun h => h := by
      funext h
      simp [TargetRange.low, hs]
    rw [Nat.min_eq_left (Nat.le_of_lt hlt), hlow]
    exact ⟨Nat.le_refl _, fun hx => hx, fun _ _ h => h⟩
  | true =>
    obtain ⟨hpos, hle, key, hkey⟩ := hr.drawn hs
    have hlow : r.low = (newMixer (min r.hostBits 64) key).mix := by
      funext h
      simp [TargetRange.low, hs, hkey]
    rw [hlow]
    exact ⟨hle, permBelow_mix (Nat.lt_min.2 ⟨hpos, by decide⟩) (Nat.min_le_right _ _) key⟩

theorem RangeOk.high_lt (h : Nat) : (r.hostBits ≤ 64 → r.high h = 0) ∧ (64 < r.hostBits → r.high h < 2 ^ (r.hostBits - 64)) := by
  unfold TargetRange.high
  constructor
  · intro hle
    rw [if_neg]
    simp [hle]
  · intro hlt
    have hlen : r.hostBits - 64 ≤ 64 := by
      have h128 : r.base.bitLen ≤ 128 := by
        cases r.base with
        | v4 value => exact (by decide : 32 ≤ 128)
        | v6 value => exact Nat.le_refl 128
      have := hr.hostBits_le
      omega
    split
    · rw [bitMask_eq hlen, Nat.and_two_pow_sub_one_eq_mod]
      exact Nat.mod_lt _ (Nat.two_pow_pos _)
    · exact Nat.two_pow_pos _

theorem RangeOk.offset_lt {h : Nat} (hh : h < hosts) : r.offset h < 2 ^ r.hostBits := by
  obtain ⟨hle, hperm⟩ := hr.permBelow_low
  have hlow := hperm.lt (Nat.lt_of_lt_of_le hh hle)
  obtain ⟨hsmall, hlarge⟩ := hr.high_lt h
  unfold TargetRange.offset
  rcases Nat.lt_or_ge 64 r.hostBits with hb | hb
  · rw [Nat.min_eq_right (Nat.le_of_lt hb)] at hlow
    have hhigh := hlarge hb
    have hsplit : 2 ^ r.hostBits = 2 ^ (r.hostBits - 64) * 2 ^ 64 := by
      rw [← Nat.pow_add, Nat.sub_add_cancel (Nat.le_of_lt hb)]
    rw [hsplit]
    calc r.high h * 2 ^ 64 + r.low h < r.high h * 2 ^ 64 + 2 ^ 64 := by omega
      _ = (r.high h + 1) * 2 ^ 64 := by rw [Nat.add_mul, Nat.one_mul]
      _ ≤ 2 ^ (r.hostBits - 64) * 2 ^ 64 := Nat.mul_le_mul_right _ hhigh
  · rw [hsmall hb, Nat.zero_mul, Nat.zero_add]
    rwa [Nat.min_eq_left hb] at hlow

/-- Different hosts have different offsets: the low words already differ. -/
theorem RangeOk.offset_inj {h h' : Nat} (hh : h < hosts) (hh' : h' < hosts) (heq : r.offset h = r.offset h') : h = h' := by
  obtain ⟨hle, hperm⟩ := hr.permBelow_low
  have hb : 2 ^ min r.hostBits 64 ≤ 2 ^ 64 :=
    Nat.pow_le_pow_right (by decide) (Nat.min_le_right _ _)
  have hlow := hperm.lt (Nat.lt_of_lt_of_le hh hle)
  have hlow' := hperm.lt (Nat.lt_of_lt_of_le hh' hle)
  unfold TargetRange.offset at heq
  have hword : r.low h = r.low h' := by omega
  exact hperm.inj (Nat.lt_of_lt_of_le hh hle) (Nat.lt_of_lt_of_le hh' hle) hword

/-- The address of a host is the base plus its offset; no sum wraps. -/
theorem RangeOk.address_toNat {h : Nat} (hh : h < hosts) : (r.address h).is4 = r.base.is4 ∧ (r.address h).toNat = r.base.toNat + r.offset h := by
  have hoff := hr.offset_lt hh
  obtain ⟨hlt, -⟩ := aligned_add_lt r.base.toNat_lt hr.hostBits_le hr.aligned hoff
  have hhigh := (hr.high_lt h).1
  have hlen := hr.hostBits_le
  unfold TargetRange.offset at hlt ⊢
  unfold TargetRange.address
  cases hbase : r.base with
  | v4 value =>
    rw [hbase] at hlt hlen
    simp only [Addr.bitLen, Addr.toNat] at hlt hlen ⊢
    refine ⟨by simp, ?_⟩
    rw [hhigh (by omega), Nat.zero_mul, Nat.zero_add] at hlt ⊢
    rw [BitVec.toNat_add, BitVec.toNat_ofNat, Nat.add_mod_mod, Nat.mod_eq_of_lt hlt]
  | v6 value =>
    rw [hbase] at hlt
    simp only [Addr.bitLen, Addr.toNat] at hlt ⊢
    refine ⟨by simp, ?_⟩
    rw [addWords_eq hlt, BitVec.toNat_ofNat, Nat.mod_eq_of_lt hlt]

theorem RangeOk.address_inj {h h' : Nat} (hh : h < hosts) (hh' : h' < hosts) (heq : r.address h = r.address h') : h = h' := by
  have h1 := (hr.address_toNat hh).2
  have h2 := (hr.address_toNat hh').2
  rw [heq] at h1
  exact hr.offset_inj hh hh' (by omega)

/-- An enumerated range reaches every address that shares its leading bits. -/
theorem RangeOk.address_surj (hs : r.sampled = false) {a : Addr}
    (hfam : a.is4 = r.base.is4) (hbits : a.toNat / 2 ^ r.hostBits = r.base.toNat / 2 ^ r.hostBits) : ∃ h, h < hosts ∧ r.address h = a := by
  obtain ⟨hlt, rfl⟩ := hr.enumerated hs
  have hpos := Nat.two_pow_pos r.hostBits
  have hbase : r.base.toNat = 2 ^ r.hostBits * (r.base.toNat / 2 ^ r.hostBits) := by
    have h := Nat.div_add_mod r.base.toNat (2 ^ r.hostBits)
    rw [hr.aligned, Nat.add_zero] at h
    exact h.symm
  have ha := Nat.div_add_mod a.toNat (2 ^ r.hostBits)
  rw [hbits, ← hbase] at ha
  have hrem := Nat.mod_lt a.toNat hpos
  refine ⟨a.toNat % 2 ^ r.hostBits, hrem, ?_⟩
  obtain ⟨hfam', hval⟩ := hr.address_toNat hrem
  refine Addr.ext_toNat (hfam'.trans hfam.symm) ?_
  have hoff : r.offset (a.toNat % 2 ^ r.hostBits) = a.toNat % 2 ^ r.hostBits := by
    unfold TargetRange.offset
    rw [(hr.high_lt _).1 (Nat.le_of_lt hlt)]
    simp [TargetRange.low, hs]
  rw [hval, hoff]
  exact ha

end

end Range

end Throne.Core.Scan
