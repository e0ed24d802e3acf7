import Mathlib.Data.BitVec

/-!
# Addresses and prefixes

What the core uses of `net/netip` and of `strings`: addresses as bit vectors of their family's
length, prefixes with their masking, and the trimming of white space. Parsing is a parameter.
-/

namespace Throne.Core

/-- An address without a zone. An IPv4 address mapped into IPv6 is a `v6` value. -/
inductive Addr where
  | v4 (value : BitVec 32)
  | v6 (value : BitVec 128)
  deriving DecidableEq

namespace Addr

/-- The number of bits of an address of this family. -/
def bitLen : Addr → Nat
  | .v4 _ => 32
  | .v6 _ => 128

def is4 : Addr → Bool
  | .v4 _ => true
  | .v6 _ => false

/-- The address as a number. -/
def toNat : Addr → Nat
  | .v4 value => value.toNat
  | .v6 value => value.toNat

/-- Whether the address is an IPv4 address mapped into IPv6, that is `::ffff:a.b.c.d`. -/
def is4In6 : Addr → Bool
  | .v4 _ => false
  | .v6 value => value.toNat / 2 ^ 32 == 0xffff

/-- An IPv4 address mapped into IPv6 without the mapping, any other address as it is. -/
def unmap (a : Addr) : Addr :=
  match a with
  | .v4 value => .v4 value
  | .v6 value => if a.is4In6 then .v4 (BitVec.ofNat 32 value.toNat) else .v6 value

/-- The 16-byte form: an IPv4 address is mapped into IPv6. -/
def as16 : Addr → Nat
  | .v4 value => 0xffff * 2 ^ 32 + value.toNat
  | .v6 value => value.toNat

/-- The address of the same family with the given number. -/
def withNat : Addr → Nat → Addr
  | .v4 _, n => .v4 (BitVec.ofNat 32 n)
  | .v6 _, n => .v6 (BitVec.ofNat 128 n)

end Addr

/-- An address with the number of leading bits that are fixed. -/
structure Prefix where
  addr : Addr
  bits : Nat
  bits_le : bits ≤ addr.bitLen
  deriving DecidableEq

variable (p : Prefix)

/-- The number of bits a prefix leaves open. -/
def Prefix.hostBits : Nat := p.addr.bitLen - p.bits

/-- The prefix whose open bits are zero. -/
def Prefix.masked : Prefix where
  addr := p.addr.withNat (p.addr.toNat / 2 ^ p.hostBits * 2 ^ p.hostBits)
  bits := p.bits
  bits_le := by
    have h := p.bits_le
    cases ha : p.addr with
    | v4 value | v6 value => rw [ha] at h; exact h

/-- The prefix holds the address: same family and the same leading bits. -/
def Prefix.Contains (a : Addr) : Prop := a.is4 = p.addr.is4 ∧ a.toNat / 2 ^ p.hostBits = p.addr.toNat / 2 ^ p.hostBits

/-- The parsers of `net/netip`: an address comes with its zone. -/
structure Netip where
  parseAddr : String → Option (Addr × String)
  parsePrefix : String → Option Prefix

/-- A prefix of a whole address. -/
def Prefix.ofAddr (a : Addr) : Prefix := ⟨a, a.bitLen, Nat.le_refl _⟩

theorem Prefix.bits_le_128 : p.bits ≤ 128 := by
  have h := p.bits_le
  cases ha : p.addr with
  | v4 value => rw [ha] at h; exact Nat.le_trans h (show 32 ≤ 128 by decide)
  | v6 value => rw [ha] at h; exact h

/-- A prefix inside the mapped IPv4 block, as a prefix of IPv4 addresses. -/
def Prefix.unmapped : Prefix :=
  match p.addr.unmap with
  | .v4 value => ⟨.v4 value, p.bits - 96, Nat.sub_le_of_le_add p.bits_le_128⟩
  | .v6 _ => p

/-- White space as `strings.TrimSpace` sees it. -/
def isSpace (c : Char) : Bool :=
  c.val ∈ [0x09, 0x0a, 0x0b, 0x0c, 0x0d, 0x20, 0x85, 0xa0, 0x1680, 0x2028, 0x2029, 0x202f, 0x205f, 0x3000] || (0x2000 ≤ c.val && c.val ≤ 0x200a)

def trimSpace (s : String) : String := String.ofList ((s.toList.dropWhile isSpace).reverse.dropWhile isSpace).reverse

/-! ## Values and masking -/

@[simp] theorem Addr.is4_v4 (value : BitVec 32) : (Addr.v4 value).is4 = true := rfl

@[simp] theorem Addr.is4_v6 (value : BitVec 128) : (Addr.v6 value).is4 = false := rfl

theorem Addr.toNat_lt (a : Addr) : a.toNat < 2 ^ a.bitLen := by
  cases a with
  | v4 value | v6 value => exact value.isLt

theorem Addr.ext_toNat {a b : Addr} (hfam : a.is4 = b.is4) (h : a.toNat = b.toNat) : a = b := by
  cases a with
  | v4 value =>
    cases b with
    | v4 value' => exact congrArg Addr.v4 (BitVec.eq_of_toNat_eq h)
    | v6 value' => simp at hfam
  | v6 value =>
    cases b with
    | v4 value' => simp at hfam
    | v6 value' => exact congrArg Addr.v6 (BitVec.eq_of_toNat_eq h)

theorem Addr.withNat_facts (a : Addr) {n : Nat} (hn : n < 2 ^ a.bitLen) : (a.withNat n).toNat = n ∧ (a.withNat n).bitLen = a.bitLen := by
  cases a with
  | v4 value | v6 value => exact ⟨by simpa [Addr.withNat, Addr.toNat, Addr.bitLen] using hn, rfl⟩

/-- Masking keeps the width and zeroes the host part. -/
theorem Prefix.masked_facts : p.masked.hostBits = p.hostBits ∧ p.masked.addr.toNat % 2 ^ p.masked.hostBits = 0 := by
  have hlt : p.addr.toNat / 2 ^ p.hostBits * 2 ^ p.hostBits < 2 ^ p.addr.bitLen := Nat.lt_of_le_of_lt (Nat.div_mul_le_self _ _) p.addr.toNat_lt
  obtain ⟨hval, hlen⟩ := p.addr.withNat_facts hlt
  have hbits : p.masked.hostBits = p.hostBits := by
    show (p.addr.withNat _).bitLen - p.bits = p.addr.bitLen - p.bits
    rw [hlen]
  refine ⟨hbits, ?_⟩
  show (p.addr.withNat _).toNat % 2 ^ p.masked.hostBits = 0
  rw [hval, hbits, Nat.mul_mod_left]

end Throne.Core
