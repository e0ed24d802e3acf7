import Throne.Lib.BitBytes
import Throne.Scanner.IpListAddressText

/-!
# Ranges that are excluded from the Tun

`parsePrefix`, `prefixContains` and `subtractPrefix` of `src/src/configs/generate.cpp`: a hole is cut out of a list
of ranges, and a range around the hole is split into one piece for each bit at which an address in it can differ
from the hole first. What reads and shows an address (`QHostAddress`) is a parameter.

`subtract_exact` says that what is left is what was there without the hole.
-/

namespace Throne.Configs.ExcludedRanges

open Lib.Texts Lib.BitBytes List
open Scanner.IpListParse (shiftLeft_or)

/-- `QHostAddress`, of one of the two families. -/
inductive HostAddress where
  | ipv4 (v4 : UInt32)
  | ipv6 (c : List UInt8) (length_eq : c.length = 16)

/-- `QHostAddress::parseSubnet` and `QHostAddress::toString`. -/
structure QtAddresses where
  parseSubnet : Text → Option (HostAddress × Nat)
  toString : HostAddress → Text

structure RawPrefix where
  addr : List UInt8
  bits : Nat

/-- The bytes of an address, as `parsePrefix` takes them. -/
def HostAddress.bytes : HostAddress → List UInt8
  | .ipv4 v4 => (List.range 4).map fun i => UInt8.ofNat (v4.toNat >>> (24 - 8 * i) &&& 0xFF)
  | .ipv6 c _ => c

/-- The address that some bytes are, as `prefixToString` makes it. -/
def hostAddress (addr : List UInt8) : HostAddress :=
  if addr.length = 4 then
    .ipv4 ((List.range 4).foldl (fun v4 i => (v4 <<< 8) ||| (addr.getD i 0).toUInt32) 0)
  else .ipv6 ((List.range 16).map fun i => addr.getD i 0) (by rw [length_map, length_range])

section Model

variable (qt : QtAddresses)

def parsePrefix (cidr : Text) : Option RawPrefix :=
  (qt.parseSubnet cidr).map fun parsed => ⟨parsed.1.bytes, parsed.2⟩

def prefixToString (p : RawPrefix) : Text := qt.toString (hostAddress p.addr) ++ '/' :: natText p.bits

def prefixContains (outer inner : RawPrefix) : Bool :=
  if outer.addr.length ≠ inner.addr.length ∨ outer.bits > inner.bits then false
  else
    let wholeBytes := outer.bits / 8
    if outer.addr.take wholeBytes ≠ inner.addr.take wholeBytes then false
    else
      let restBits := outer.bits % 8
      if restBits = 0 then true
      else
        let mask := (0xFF : UInt8) <<< UInt8.ofNat (8 - restBits)
        outer.addr.getD wholeBytes 0 &&& mask == inner.addr.getD wholeBytes 0 &&& mask

/-- What differs from an address first at the bit before `bits`. -/
def sibling (addr : List UInt8) (bits : Nat) : RawPrefix := ⟨clearFrom (flipBit addr (bits - 1)) bits, bits⟩

/-- What is left of one entry. -/
def subtractEntry (cut : RawPrefix) (entry : Text) : List Text :=
  match parsePrefix qt entry with
  | none => [entry]
  | some range =>
    if prefixContains cut range then []
    else if !prefixContains range cut then [entry]
    else (List.range' (range.bits + 1) (cut.bits - range.bits)).map fun bits => prefixToString qt (sibling cut.addr bits)

def subtractPrefix (ranges : List Text) (hole : Text) : List Text :=
  match parsePrefix qt hole with
  | none => ranges
  | some cut => ranges.flatMap (subtractEntry qt cut)

end Model

/-! ## What a prefix covers -/

/-- An address, as its bytes, is in a prefix. -/
def Covers (p : RawPrefix) (x : List UInt8) : Prop := x.length = p.addr.length ∧ Agree (bitAt x) (bitAt p.addr) p.bits

/-- An address is in the prefix that a text says. -/
def Covered (qt : QtAddresses) (text : Text) (x : List UInt8) : Prop := ∃ p, parsePrefix qt text = some p ∧ Covers p x

/-- The number of bits of an address. -/
def HostAddress.width (addr : HostAddress) : Nat := 8 * addr.bytes.length

/-- Addresses are read as they are shown, and a subnet has no more bits than its address. -/
structure QtAddresses.RoundTrip (qt : QtAddresses) : Prop where
  bits_le : ∀ text addr bits, qt.parseSubnet text = some (addr, bits) → bits ≤ addr.width
  reads : ∀ (addr : HostAddress) (bits : Nat), bits ≤ addr.width → (∀ i, bits ≤ i → bitAt addr.bytes i = false) →
    qt.parseSubnet (qt.toString addr ++ '/' :: natText bits) = some (addr, bits)

/-- A prefix with an address of its family. -/
structure RawPrefix.Valid (p : RawPrefix) : Prop where
  length : p.addr.length = 4 ∨ p.addr.length = 16
  bits : p.bits ≤ 8 * p.addr.length

theorem length_bytes (addr : HostAddress) : addr.bytes.length = 4 ∨ addr.bytes.length = 16 := by
  cases addr with
  | ipv4 v4 => exact .inl rfl
  | ipv6 c length_eq => exact .inr length_eq

/-- A byte behind a word that has room for it. -/
theorem word_snoc {v4 : UInt32} (byte : UInt8) (h : v4.toNat < 2 ^ 24) : ((v4 <<< 8) ||| byte.toUInt32).toNat = v4.toNat * 256 + byte.toNat := by
  have hshift : (v4 <<< 8).toNat = v4.toNat <<< 8 := by
    rw [UInt32.toNat_shiftLeft]
    refine Nat.mod_eq_of_lt ?_
    show v4.toNat <<< 8 < 2 ^ 32
    rw [Nat.shiftLeft_eq]
    omega
  rw [UInt32.toNat_or, hshift, UInt8.toNat_toUInt32, shiftLeft_or _ (show byte.toNat < 2 ^ 8 from UInt8.toNat_lt byte)]
  norm_num

variable {addr : List UInt8}

/-- The bytes of an address are read back from it. -/
theorem bytes_hostAddress (h : addr.length = 4 ∨ addr.length = 16) : (hostAddress addr).bytes = addr := by
  unfold hostAddress
  split
  · next hfour =>
    match addr, hfour with
    | [a, b, c, d], _ =>
      have ha := UInt8.toNat_lt a
      have hb := UInt8.toNat_lt b
      have hc := UInt8.toNat_lt c
      have hd := UInt8.toNat_lt d
      have hzero : (0 : UInt32).toNat = 0 := rfl
      obtain ⟨one, hone⟩ : ∃ one, ((0 : UInt32) <<< 8) ||| a.toUInt32 = one := ⟨_, rfl⟩
      obtain ⟨two, htwo⟩ : ∃ two, (one <<< 8) ||| b.toUInt32 = two := ⟨_, rfl⟩
      obtain ⟨three, hthree⟩ : ∃ three, (two <<< 8) ||| c.toUInt32 = three := ⟨_, rfl⟩
      obtain ⟨four, hfour'⟩ : ∃ four, (three <<< 8) ||| d.toUInt32 = four := ⟨_, rfl⟩
      have hword : (List.range 4).foldl (fun (v4 : UInt32) i => (v4 <<< 8) ||| ([a, b, c, d].getD i 0).toUInt32) 0 = four := by
        rw [← hfour', ← hthree, ← htwo, ← hone]
        rfl
      have honeNat : one.toNat = (0 : UInt32).toNat * 256 + a.toNat := hone ▸ word_snoc a (by decide)
      rw [hzero] at honeNat
      have htwoNat : two.toNat = one.toNat * 256 + b.toNat := htwo ▸ word_snoc b (by omega)
      have hthreeNat : three.toNat = two.toNat * 256 + c.toNat := hthree ▸ word_snoc c (by omega)
      have hfourNat : four.toNat = three.toNat * 256 + d.toNat := hfour' ▸ word_snoc d (by omega)
      have hbyte (n : Nat) (byte : UInt8) (hn : n % 256 = byte.toNat) : UInt8.ofNat (n &&& 0xFF) = byte := by
        refine UInt8.toNat_inj.1 ?_
        have hand : n &&& 0xFF = n % 256 := Nat.and_two_pow_sub_one_eq_mod n 8
        rw [UInt8.toNat_ofNat', hand]
        omega
      have hbytes (w : Nat) (hw : w = ((a.toNat * 256 + b.toNat) * 256 + c.toNat) * 256 + d.toNat) :
          [UInt8.ofNat (w >>> 24 &&& 0xFF), UInt8.ofNat (w >>> 16 &&& 0xFF), UInt8.ofNat (w >>> 8 &&& 0xFF),
            UInt8.ofNat (w >>> 0 &&& 0xFF)] = [a, b, c, d] := by
        rw [hbyte _ a, hbyte _ b, hbyte _ c, hbyte _ d] <;> rw [Nat.shiftRight_eq_div_pow] <;> omega
      have hvalue : four.toNat = ((a.toNat * 256 + b.toNat) * 256 + c.toNat) * 256 + d.toNat := by
        rw [hfourNat, hthreeNat, htwoNat, honeNat, Nat.zero_mul, Nat.zero_add]
      rw [hword]
      exact hbytes four.toNat hvalue
  · next hsixteen =>
    have hlength : addr.length = 16 := h.resolve_left hsixteen
    show (List.range 16).map (fun i => addr.getD i 0) = addr
    refine ext_getElem (by rw [length_map, length_range, hlength]) fun i hi hi' => ?_
    rw [getElem_map, getElem_range, getD_eq_getElem _ _ hi']

theorem valid_of_parse {qt : QtAddresses} (hqt : qt.RoundTrip) {text : Text} {p : RawPrefix} (h : parsePrefix qt text = some p) : p.Valid := by
  obtain ⟨⟨addr, bits⟩, hparse, rfl⟩ := Option.map_eq_some_iff.1 h
  exact ⟨length_bytes addr, hqt.bits_le text addr bits hparse⟩

theorem prefixContains_iff {outer inner : RawPrefix} (houter : outer.Valid) : prefixContains outer inner = true ↔
    outer.addr.length = inner.addr.length ∧ outer.bits ≤ inner.bits ∧ Agree (bitAt outer.addr) (bitAt inner.addr) outer.bits := by
  have hbits := houter.bits
  unfold prefixContains
  split
  · next hapart =>
    refine ⟨nofun, fun h => ?_⟩
    rcases hapart with hlength | hmore
    · exact absurd h.1 hlength
    · exact absurd h.2.1 (Nat.not_le.2 hmore)
  · next hsame =>
    rw [not_or, not_not, not_lt] at hsame
    obtain ⟨hlength, hle⟩ := hsame
    have hwhole : 8 * (outer.bits / 8) ≤ outer.bits := by omega
    have hfront := take_eq_take hlength (show outer.bits / 8 ≤ outer.addr.length by omega)
    dsimp only
    split
    · next hfrontNe =>
      exact ⟨nofun, fun h => absurd (hfront.2 (h.2.2.mono hwhole)) hfrontNe⟩
    · next hfrontEq =>
      have hagree := hfront.1 (not_not.1 hfrontEq)
      split
      · next hzero =>
        rw [show 8 * (outer.bits / 8) = outer.bits by omega] at hagree
        exact ⟨fun _ => ⟨hlength, hle, hagree⟩, fun _ => rfl⟩
      · next hrest =>
        rw [beq_iff_eq, mask_eq_mask (Nat.pos_of_ne_zero hrest) (Nat.mod_lt _ (by decide))]
        constructor
        · intro hbyte
          refine ⟨hlength, hle, fun i hi => ?_⟩
          by_cases hin : i < 8 * (outer.bits / 8)
          · exact hagree i hin
          · have hbit := hbyte (i % 8) (by omega)
            rw [show outer.bits / 8 = i / 8 by omega] at hbit
            exact hbit
        · intro h i hi
          have hbit := h.2.2 (8 * (outer.bits / 8) + i) (by omega)
          rw [bitAt, bitAt, show (8 * (outer.bits / 8) + i) / 8 = outer.bits / 8 by omega, show (8 * (outer.bits / 8) + i) % 8 = i by omega] at hbit
          exact hbit

/-! ## Pieces -/

/-- A piece agrees with the hole up to its last bit, which is the other one, and has no bits behind it. -/
theorem sibling_spec (hlength : addr.length = 4 ∨ addr.length = 16) {k : Nat} (hk : k < 8 * addr.length) :
    (sibling addr (k + 1)).Valid ∧ (sibling addr (k + 1)).addr.length = addr.length ∧
    Agree (bitAt (sibling addr (k + 1)).addr) (bitAt addr) k ∧ bitAt (sibling addr (k + 1)).addr k = !bitAt addr k ∧
    ∀ i, k + 1 ≤ i → bitAt (sibling addr (k + 1)).addr i = false := by
  have hflip : (flipBit addr k).length = addr.length := length_flipBit addr k
  have hclear : (clearFrom (flipBit addr k) (k + 1)).length = addr.length := by
    rw [length_clearFrom _ (by omega), hflip]
  have hbit (i : Nat) : bitAt (clearFrom (flipBit addr k) (k + 1)) i = ((bitAt addr i ^^ decide (i = k)) && decide (i < k + 1)) := by
    rw [bitAt_clearFrom _ (by omega), bitAt_flipBit hk]
  refine ⟨⟨by rwa [← hclear] at hlength, ?_⟩, hclear, fun i hi => ?_, ?_, fun i hi => ?_⟩
  · show k + 1 ≤ 8 * (clearFrom (flipBit addr k) (k + 1)).length
    omega
  · rw [sibling, Nat.add_sub_cancel, hbit, decide_eq_false (by omega), decide_eq_true (by omega), Bool.xor_false, Bool.and_true]
  · rw [sibling, Nat.add_sub_cancel, hbit, decide_eq_true rfl, decide_eq_true (Nat.lt_succ_self k), Bool.and_true, Bool.xor_true]
  · rw [sibling, Nat.add_sub_cancel, hbit, decide_eq_false (by omega : ¬i < k + 1), Bool.and_false]

/-- A piece covers what differs from the hole first at its last bit. -/
theorem covers_sibling (hlength : addr.length = 4 ∨ addr.length = 16) {k : Nat}
    (hk : k < 8 * addr.length) (x : List UInt8) : Covers (sibling addr (k + 1)) x ↔
    x.length = addr.length ∧ Agree (bitAt x) (bitAt addr) k ∧ bitAt x k ≠ bitAt addr k := by
  obtain ⟨-, hsize, hagree, hbit, -⟩ := sibling_spec hlength hk
  rw [Covers, hsize]
  refine and_congr_right fun _ => ?_
  constructor
  · intro h
    refine ⟨(h.mono (Nat.le_succ k)).trans hagree, ?_⟩
    rw [h k (Nat.lt_succ_self k), hbit]
    exact Bool.not_ne_self _
  · rintro ⟨hfront, hne⟩ i hi
    rcases Nat.lt_succ_iff_lt_or_eq.1 hi with hlt | rfl
    · exact (hfront.trans hagree.symm) i hlt
    · rw [hbit]
      exact Bool.eq_not_of_ne hne

variable {qt : QtAddresses}

/-- A piece is read back from its text. -/
theorem parse_sibling (hqt : qt.RoundTrip) (hlength : addr.length = 4 ∨ addr.length = 16) {k : Nat} (hk : k < 8 * addr.length) :
    parsePrefix qt (prefixToString qt (sibling addr (k + 1))) = some (sibling addr (k + 1)) := by
  obtain ⟨hvalid, hsize, -, -, hzero⟩ := sibling_spec hlength hk
  have hbytes := bytes_hostAddress hvalid.length
  have hread := hqt.reads (hostAddress (sibling addr (k + 1)).addr) (k + 1)
    (by rw [HostAddress.width, hbytes, hsize]; omega) (by rw [hbytes]; exact hzero)
  rw [parsePrefix, prefixToString, show (sibling addr (k + 1)).bits = k + 1 from rfl, hread, Option.map_some, hbytes]
  rfl

/-! ## One entry -/

section Entry

variable {cut range : RawPrefix} {entry : Text}

theorem covered_iff (x : List UInt8) (h : parsePrefix qt entry = some range) : Covered qt entry x ↔ Covers range x := by
  rw [Covered, h]
  simp

/-- The entry is in the hole, or it is kept, or it is split. -/
theorem subtractEntry_cases (cut : RawPrefix) (h : parsePrefix qt entry = some range) :
    (prefixContains cut range = true ∧ subtractEntry qt cut entry = []) ∨
    (prefixContains cut range = false ∧ prefixContains range cut = false ∧ subtractEntry qt cut entry = [entry]) ∨
    (prefixContains cut range = false ∧ prefixContains range cut = true ∧ subtractEntry qt cut entry =
    (List.range' range.bits (cut.bits - range.bits)).map fun k => prefixToString qt (sibling cut.addr (k + 1))) := by
  rw [subtractEntry, h]
  dsimp only
  cases hin : prefixContains cut range with
  | true => exact .inl ⟨rfl, if_pos rfl⟩
  | false =>
    rw [if_neg Bool.false_ne_true]
    cases haround : prefixContains range cut with
    | false => exact .inr (.inl ⟨rfl, rfl, if_pos rfl⟩)
    | true =>
      refine .inr (.inr ⟨rfl, rfl, ?_⟩)
      rw [Bool.not_true, if_neg Bool.false_ne_true, range'_succ_left, map_map]
      rfl

/-- Two prefixes with an address in common: the one with more bits is in the other. -/
theorem contains_of_common {p q : RawPrefix} (hp : p.Valid) (hq : q.Valid) {x : List UInt8} (hpx : Covers p x)
    (hqx : Covers q x) : prefixContains p q = true ∨ prefixContains q p = true := by
  have hlength : p.addr.length = q.addr.length := hpx.1.symm.trans hqx.1
  rcases Nat.le_total p.bits q.bits with hle | hle
  · exact .inl ((prefixContains_iff hp).2 ⟨hlength, hle, hpx.2.symm.trans (hqx.2.mono hle)⟩)
  · exact .inr ((prefixContains_iff hq).2 ⟨hlength.symm, hle, hqx.2.symm.trans (hpx.2.mono hle)⟩)

theorem covers_of_contains {p q : RawPrefix} (hp : p.Valid) (h : prefixContains p q = true) {x : List UInt8} (hx : Covers q x) : Covers p x := by
  obtain ⟨hlength, hle, hagree⟩ := (prefixContains_iff hp).1 h
  exact ⟨hx.1.trans hlength.symm, (hx.2.mono hle).trans hagree.symm⟩

/-- A prefix covers its own address. -/
theorem covers_self (p : RawPrefix) : Covers p p.addr := ⟨rfl, fun _ _ => rfl⟩

section

variable (hqt : qt.RoundTrip) (hcut : cut.Valid) (hentry : parsePrefix qt entry = some range)

include hqt hcut hentry

/-- What is left of an entry covers what the entry covers and the hole does not. -/
theorem entry_covered (x : List UInt8) : (∃ piece ∈ subtractEntry qt cut entry, Covered qt piece x) ↔ Covered qt entry x ∧ ¬Covers cut x := by
  have hrange := valid_of_parse hqt hentry
  rw [covered_iff x hentry]
  rcases subtractEntry_cases cut hentry with ⟨hin, hleft⟩ | ⟨hnot, hnot', hleft⟩ | ⟨hnot, haround, hleft⟩
  · rw [hleft]
    constructor
    · rintro ⟨piece, hpiece, -⟩
      cases hpiece
    · rintro ⟨hx, hout⟩
      exact absurd (covers_of_contains hcut hin hx) hout
  · rw [hleft]
    constructor
    · rintro ⟨piece, hpiece, hx⟩
      rw [mem_singleton.1 hpiece, covered_iff x hentry] at hx
      refine ⟨hx, fun hcx => ?_⟩
      rcases contains_of_common hcut hrange hcx hx with h | h
      · exact absurd (hnot.symm.trans h) Bool.false_ne_true
      · exact absurd (hnot'.symm.trans h) Bool.false_ne_true
    · rintro ⟨hx, -⟩
      exact ⟨entry, mem_singleton_self _, (covered_iff x hentry).2 hx⟩
  · obtain ⟨hlength, hle, hagree⟩ := (prefixContains_iff hrange).1 haround
    have hbits := hcut.bits
    have hsplit := agree_split (x := bitAt x) (c := bitAt cut.addr) hle
    rw [hleft]
    constructor
    · rintro ⟨piece, hpiece, hx⟩
      obtain ⟨k, hk, rfl⟩ := mem_map.1 hpiece
      rw [mem_range'_1] at hk
      rw [covered_iff x (parse_sibling hqt hcut.length (by omega)), covers_sibling hcut.length (by omega)] at hx
      have hboth := hsplit.2 ⟨k, hk.1, by omega, hx.2⟩
      exact ⟨⟨hx.1.trans hlength.symm, hboth.1.trans hagree.symm⟩, fun hcx => hboth.2 hcx.2⟩
    · rintro ⟨hx, hout⟩
      have hsize : x.length = cut.addr.length := hx.1.trans hlength
      obtain ⟨k, hmk, hkn, hk⟩ := hsplit.1 ⟨hx.2.trans hagree, fun h => hout ⟨hsize, h⟩⟩
      refine ⟨_, mem_map_of_mem (mem_range'_1.2 ⟨hmk, by omega⟩), ?_⟩
      rw [covered_iff x (parse_sibling hqt hcut.length (by omega)), covers_sibling hcut.length (by omega)]
      exact ⟨hsize, hk⟩

/-- No two pieces of an entry have an address in common. -/
theorem pieces_disjoint : (subtractEntry qt cut entry).Pairwise fun piece piece' =>
    ∀ x, ¬(Covered qt piece x ∧ Covered qt piece' x) := by
  rcases subtractEntry_cases cut hentry with ⟨-, hleft⟩ | ⟨-, -, hleft⟩ | ⟨-, -, hleft⟩
  · rw [hleft]
    exact List.Pairwise.nil
  · rw [hleft]
    exact pairwise_singleton _ _
  · have hbits := hcut.bits
    rw [hleft, pairwise_map]
    refine List.Pairwise.imp_of_mem ?_ pairwise_lt_range'
    intro k l hk hl hlt x hboth
    rw [mem_range'_1] at hk hl
    rw [covered_iff x (parse_sibling hqt hcut.length (by omega)), covers_sibling hcut.length (by omega),
      covered_iff x (parse_sibling hqt hcut.length (by omega)), covers_sibling hcut.length (by omega)] at hboth
    exact absurd (first_difference hboth.1.2 hboth.2.2) (Nat.ne_of_lt hlt)

/-- An entry that has nothing in common with the hole is kept. -/
theorem entry_kept (h : ∀ x, ¬(Covered qt entry x ∧ Covers cut x)) : subtractEntry qt cut entry = [entry] := by
  have hrange := valid_of_parse hqt hentry
  have hnone (x : List UInt8) : ¬(Covers range x ∧ Covers cut x) := fun hx => h x ⟨(covered_iff x hentry).2 hx.1, hx.2⟩
  rcases subtractEntry_cases cut hentry with ⟨hin, -⟩ | ⟨-, -, hleft⟩ | ⟨-, haround, -⟩
  · exact absurd ⟨covers_self range, covers_of_contains hcut hin (covers_self range)⟩ (hnone range.addr)
  · exact hleft
  · exact absurd ⟨covers_of_contains hrange haround (covers_self cut), covers_self cut⟩ (hnone cut.addr)

/-- What is left of an entry is kept the next time. -/
theorem subtractEntry_again : ∀ piece ∈ subtractEntry qt cut entry, subtractEntry qt cut piece = [piece] := by
  intro piece hpiece
  have hcovered := fun x => (entry_covered hqt hcut hentry x).1
  obtain ⟨p, hp⟩ : ∃ p, parsePrefix qt piece = some p := by
    rcases subtractEntry_cases cut hentry with ⟨-, hleft⟩ | ⟨-, -, hleft⟩ | ⟨-, -, hleft⟩
    · rw [hleft] at hpiece
      cases hpiece
    · rw [hleft, mem_singleton] at hpiece
      exact ⟨range, hpiece ▸ hentry⟩
    · have hbits := hcut.bits
      rw [hleft] at hpiece
      obtain ⟨k, hk, rfl⟩ := mem_map.1 hpiece
      rw [mem_range'_1] at hk
      exact ⟨_, parse_sibling hqt hcut.length (by omega)⟩
  exact entry_kept hqt hcut hp fun x hx => (hcovered x ⟨piece, hpiece, hx.1⟩).2 hx.2

end

end Entry

/-! ## All entries -/

/-- Where the ranges and the hole are prefixes, what is left covers the addresses of the ranges that are not in the
hole; the pieces of an entry have no address in common, an entry that does not meet the hole is kept, in its place,
and to cut the hole out again changes nothing. -/
theorem subtract_exact (qt : QtAddresses) (hqt : qt.RoundTrip) (ranges : List Text) (hole : Text)
    (hranges : ∀ entry ∈ ranges, (parsePrefix qt entry).isSome = true) (hhole : (parsePrefix qt hole).isSome = true) :
    (∀ x, (∃ entry ∈ subtractPrefix qt ranges hole, Covered qt entry x) ↔ (∃ entry ∈ ranges, Covered qt entry x) ∧ ¬Covered qt hole x) ∧
    subtractPrefix qt ranges hole = ranges.flatMap (fun entry => subtractPrefix qt [entry] hole) ∧
    (∀ entry ∈ ranges, (subtractPrefix qt [entry] hole).Pairwise fun piece piece' =>
      ∀ x, ¬(Covered qt piece x ∧ Covered qt piece' x)) ∧
    (∀ entry ∈ ranges, (∀ x, ¬(Covered qt entry x ∧ Covered qt hole x)) → subtractPrefix qt [entry] hole = [entry]) ∧
    subtractPrefix qt (subtractPrefix qt ranges hole) hole = subtractPrefix qt ranges hole := by
  obtain ⟨cut, hcutParse⟩ := Option.isSome_iff_exists.1 hhole
  have hcut := valid_of_parse hqt hcutParse
  have hsubtract (entries : List Text) : subtractPrefix qt entries hole = entries.flatMap (subtractEntry qt cut) := by
    rw [subtractPrefix, hcutParse]
  have hone (entry : Text) : subtractPrefix qt [entry] hole = subtractEntry qt cut entry := by
    rw [hsubtract, flatMap_singleton]
  have hparse : ∀ entry ∈ ranges, ∃ range, parsePrefix qt entry = some range :=
    fun entry hentry => Option.isSome_iff_exists.1 (hranges entry hentry)
  have hhole' (x : List UInt8) : Covered qt hole x ↔ Covers cut x := covered_iff x hcutParse
  refine ⟨fun x => ?_, ?_, fun entry hentry => ?_, fun entry hentry hapart => ?_, ?_⟩
  · rw [hsubtract, hhole']
    constructor
    · rintro ⟨piece, hpiece, hx⟩
      obtain ⟨entry, hentry, hin⟩ := mem_flatMap.1 hpiece
      obtain ⟨range, hrange⟩ := hparse entry hentry
      have hboth := (entry_covered hqt hcut hrange x).1 ⟨piece, hin, hx⟩
      exact ⟨⟨entry, hentry, hboth.1⟩, hboth.2⟩
    · rintro ⟨⟨entry, hentry, hx⟩, hout⟩
      obtain ⟨range, hrange⟩ := hparse entry hentry
      obtain ⟨piece, hpiece, hpx⟩ := (entry_covered hqt hcut hrange x).2 ⟨hx, hout⟩
      exact ⟨piece, mem_flatMap.2 ⟨entry, hentry, hpiece⟩, hpx⟩
  · rw [hsubtract]
    exact flatMap_congr fun entry _ => (hone entry).symm
  · obtain ⟨range, hrange⟩ := hparse entry hentry
    rw [hone]
    exact pieces_disjoint hqt hcut hrange
  · obtain ⟨range, hrange⟩ := hparse entry hentry
    rw [hone]
    exact entry_kept hqt hcut hrange fun x hx => hapart x ⟨hx.1, (hhole' x).2 hx.2⟩
  · rw [hsubtract, hsubtract]
    have hkept : ∀ piece ∈ ranges.flatMap (subtractEntry qt cut), subtractEntry qt cut piece = [piece] := by
      intro piece hpiece
      obtain ⟨entry, hentry, hin⟩ := mem_flatMap.1 hpiece
      obtain ⟨range, hrange⟩ := hparse entry hentry
      exact subtractEntry_again hqt hcut hrange piece hin
    rw [flatMap_congr hkept, flatMap_singleton']

/-! ## Addresses that round trip -/

section Instance

open Scanner.IpListParse (IpListParseAddr ipListParseAddress ipListParseFormat ipListParseDecimal
  address_format mem_format cutAt_slash decimal_natText)

/-- The words of an address. -/
def HostAddress.words : HostAddress → IpListParseAddr
  | .ipv4 v4 => ⟨false, 0, v4.toNat⟩
  | .ipv6 c _ => ⟨true, valueOf (c.take 8), valueOf (c.drop 8)⟩

def ofWords (addr : IpListParseAddr) : HostAddress :=
  if addr.v6 then
    .ipv6 (bytesOf 8 addr.hi ++ bytesOf 8 addr.lo) (by rw [length_append, length_bytesOf, length_bytesOf])
  else .ipv4 (UInt32.ofNat addr.lo)

theorem words_valid (addr : HostAddress) : addr.words.Valid := by
  cases addr with
  | ipv4 v4 => exact ⟨rfl, UInt32.toNat_lt v4⟩
  | ipv6 c length_eq =>
    have hhi := valueOf_lt (c.take 8)
    have hlo := valueOf_lt (c.drop 8)
    rw [length_take, length_eq] at hhi
    rw [length_drop, length_eq] at hlo
    exact ⟨hhi, hlo⟩

theorem ofWords_words (addr : HostAddress) : ofWords addr.words = addr := by
  cases addr with
  | ipv4 v4 =>
    show HostAddress.ipv4 (UInt32.ofNat v4.toNat) = _
    rw [UInt32.ofNat_toNat]
  | ipv6 c length_eq =>
    have hhi := bytesOf_valueOf (c.take 8)
    have hlo := bytesOf_valueOf (c.drop 8)
    rw [length_take, length_eq] at hhi
    rw [length_drop, length_eq] at hlo
    have hbytes : bytesOf 8 (valueOf (c.take 8)) ++ bytesOf 8 (valueOf (c.drop 8)) = c := by
      rw [show bytesOf 8 (valueOf (c.take 8)) = c.take 8 from hhi, show bytesOf 8 (valueOf (c.drop 8)) = c.drop 8 from hlo, take_append_drop]
    show HostAddress.ipv6 _ _ = _
    congr 1

/-- Addresses read and shown as the IP lists have them, with the number of bits behind a slash. -/
def listAddresses : QtAddresses where
  parseSubnet text :=
    match cutAt "/".toList text with
    | some (front, back) =>
      match ipListParseAddress front, ipListParseDecimal back 3 with
      | some addr, some bits =>
        if bits ≤ (ofWords addr).width then some (ofWords addr, bits) else none
      | _, _ => none
    | none => none
  toString addr := ipListParseFormat addr.words

theorem listAddresses_roundTrip : listAddresses.RoundTrip where
  bits_le text addr bits h := by
    simp only [listAddresses] at h
    split at h
    · split at h
      · split at h
        · next hle =>
          rw [Option.some.injEq, Prod.mk.injEq] at h
          rw [← h.1, ← h.2]
          exact hle
        · cases h
      · cases h
    · cases h
  reads addr bits hle _ := by
    have hslash : '/' ∉ ipListParseFormat addr.words := fun hin =>
      absurd (mem_format (words_valid addr) hin) (by decide)
    have hwidth : addr.width = 32 ∨ addr.width = 128 := by
      rw [HostAddress.width]
      rcases length_bytes addr with h | h <;> omega
    show (match cutAt "/".toList (ipListParseFormat addr.words ++ '/' :: natText bits) with
      | some (front, back) =>
        match ipListParseAddress front, ipListParseDecimal back 3 with
        | some addr, some bits => if bits ≤ (ofWords addr).width then some (ofWords addr, bits) else none
        | _, _ => none
      | none => none) = some (addr, bits)
    rw [(cutAt_slash hslash (natText bits)).2]
    dsimp only
    rw [address_format (words_valid addr), decimal_natText (by omega)]
    dsimp only
    rw [ofWords_words, if_pos hle]

end Instance

/-- A network of the private ranges around the subnet of the Tun. -/
theorem private_cut : subtractPrefix listAddresses (subtractPrefix listAddresses ["172.16.0.0/12".toList] "172.19.0.0/24".toList)
    "172.19.0.0/24".toList = subtractPrefix listAddresses ["172.16.0.0/12".toList] "172.19.0.0/24".toList :=
  (subtract_exact listAddresses listAddresses_roundTrip ["172.16.0.0/12".toList] "172.19.0.0/24".toList (by decide) (by decide)).2.2.2.2

end Throne.Configs.ExcludedRanges
