import Mathlib.Data.List.Induction
import Mathlib.Data.Nat.Bitwise

/-!
# The bits of byte strings

Bytes as the bits they are, the most significant bit of the first byte first: one bit flipped or cleared, the
front of two strings compared by whole bytes and a mask, and the numbers that strings are. `Agree` is to have the
same first bits, and `agree_split` cuts what agrees with a string on some bits, and not on more, by the first bit
that differs.
-/

namespace Throne.Lib.BitBytes

open List

variable (bytes : List UInt8)

/-- A bit of a byte string. -/
def bitAt (i : Nat) : Bool := (bytes.getD (i / 8) 0).toNat.testBit (7 - i % 8)

/-- Two sequences of bits have the same first bits. -/
def Agree (x c : Nat → Bool) (n : Nat) : Prop := ∀ i < n, x i = c i

instance (x c : Nat → Bool) (n : Nat) : Decidable (Agree x c n) := inferInstanceAs (Decidable (∀ i < n, x i = c i))

variable {x c d : Nat → Bool} {m n : Nat}

theorem Agree.mono (h : Agree x c n) (hle : m ≤ n) : Agree x c m := fun i hi => h i (hi.trans_le hle)

theorem Agree.trans (h : Agree x c n) (h' : Agree c d n) : Agree x d n := fun i hi => (h i hi).trans (h' i hi)

theorem Agree.symm (h : Agree x c n) : Agree c x n := fun i hi => (h i hi).symm

/-- What agrees on some bits and not on more differs first at one of the bits between. -/
theorem agree_split (hle : m ≤ n) : Agree x c m ∧ ¬Agree x c n ↔ ∃ k, m ≤ k ∧ k < n ∧ Agree x c k ∧ x k ≠ c k := by
  constructor
  · rintro ⟨hm, hn⟩
    induction n with
    | zero => exact absurd (fun i hi => absurd hi (Nat.not_lt_zero i)) hn
    | succ n ih =>
      by_cases hless : m ≤ n
      · by_cases hagree : Agree x c n
        · refine ⟨n, hless, Nat.lt_succ_self n, hagree, fun heq => hn fun i hi => ?_⟩
          rcases Nat.lt_succ_iff_lt_or_eq.1 hi with hlt | rfl
          · exact hagree i hlt
          · exact heq
        · obtain ⟨k, hmk, hkn, hk⟩ := ih hless hagree
          exact ⟨k, hmk, hkn.trans (Nat.lt_succ_self n), hk⟩
      · have heq : m = n + 1 := by omega
        exact absurd (heq ▸ hm) hn
  · rintro ⟨k, hmk, hkn, hk, hne⟩
    exact ⟨hk.mono hmk, fun hn => hne (hn k hkn)⟩

variable {k : Nat}

/-- Where two first differ is one place. -/
theorem first_difference {l : Nat} (hk : Agree x c k ∧ x k ≠ c k) (hl : Agree x c l ∧ x l ≠ c l) : k = l := by
  rcases Nat.lt_trichotomy k l with hlt | heq | hgt
  · exact absurd (hl.1 k hlt) hk.2
  · exact heq
  · exact absurd (hk.1 l hgt) hl.2

/-! ## One bit -/

def flipBit (k : Nat) : List UInt8 :=
  bytes.modify (k / 8) fun byte => byte ^^^ ((0x80 : UInt8) >>> UInt8.ofNat (k % 8))

def clearBit (k : Nat) : List UInt8 :=
  bytes.modify (k / 8) fun byte => byte &&& ~~~((0x80 : UInt8) >>> UInt8.ofNat (k % 8))

/-- All bits from one on cleared. -/
def clearFrom (n : Nat) : List UInt8 := (List.range' n (8 * bytes.length - n)).foldl clearBit bytes

@[simp] theorem length_flipBit (k : Nat) : (flipBit bytes k).length = bytes.length := length_modify ..

@[simp] theorem length_clearBit (k : Nat) : (clearBit bytes k).length = bytes.length := length_modify ..

theorem getD_modify {f : UInt8 → UInt8} (bytes : List UInt8) {j : Nat} (hj : j < bytes.length) (i : Nat) :
    (bytes.modify j f).getD i 0 = if i = j then f (bytes.getD i 0) else bytes.getD i 0 := by
  rw [getD_eq_getElem?_getD, getD_eq_getElem?_getD, getElem?_modify]
  by_cases h : j = i
  · subst h
    rw [if_pos rfl, getElem?_eq_getElem hj]
    exact if_pos rfl
  · rw [if_neg fun heq => h heq.symm]
    cases bytes[i]? with
    | none => rfl
    | some byte => exact if_neg h

/-- A bit of the byte that has one bit, from the left. -/
theorem single_testBit {j i : Nat} (hj : j < 8) (hi : i < 8) : ((0x80 : UInt8) >>> UInt8.ofNat j).toNat.testBit (7 - i) = decide (i = j) ∧
    (~~~((0x80 : UInt8) >>> UInt8.ofNat j)).toNat.testBit (7 - i) = decide (i ≠ j) := by
  have hall : ∀ j < 8, ∀ i < 8, ((0x80 : UInt8) >>> UInt8.ofNat j).toNat.testBit (7 - i) = decide (i = j) ∧
      (~~~((0x80 : UInt8) >>> UInt8.ofNat j)).toNat.testBit (7 - i) = decide (i ≠ j) := by
    decide
  exact hall j hj i hi

theorem bitAt_flipBit {bytes : List UInt8} (hk : k < 8 * bytes.length) (i : Nat) : bitAt (flipBit bytes k) i = (bitAt bytes i ^^ decide (i = k)) := by
  rw [bitAt, flipBit, getD_modify bytes (show k / 8 < bytes.length by omega)]
  split
  · next hbyte =>
    rw [UInt8.toNat_xor, Nat.testBit_xor, (single_testBit (Nat.mod_lt k (by decide)) (Nat.mod_lt i (by decide))).1, bitAt]
    congr 2
    rw [eq_iff_iff]
    omega
  · next hbyte =>
    have hne : i ≠ k := fun heq => hbyte (by rw [heq])
    rw [decide_eq_false hne, Bool.xor_false, bitAt]

theorem bitAt_clearBit {bytes : List UInt8} (hk : k < 8 * bytes.length) (i : Nat) :
    bitAt (clearBit bytes k) i = (bitAt bytes i && decide (i ≠ k)) := by
  rw [bitAt, clearBit, getD_modify bytes (show k / 8 < bytes.length by omega)]
  split
  · next hbyte =>
    rw [UInt8.toNat_and, Nat.testBit_and, (single_testBit (Nat.mod_lt k (by decide)) (Nat.mod_lt i (by decide))).2, bitAt]
    congr 2
    rw [eq_iff_iff]
    omega
  · next hbyte =>
    have hne : i ≠ k := fun heq => hbyte (by rw [heq])
    rw [decide_eq_true hne, Bool.and_true, bitAt]

/-- No bit is behind the last byte. -/
theorem bitAt_behind {bytes : List UInt8} {i : Nat} (h : 8 * bytes.length ≤ i) : bitAt bytes i = false := by
  rw [bitAt, getD_eq_default _ _ (by omega)]
  exact Nat.zero_testBit _

theorem clearFrom_spec (count : Nat) (bytes : List UInt8) (n : Nat) (h : n + count ≤ 8 * bytes.length) :
    ((List.range' n count).foldl clearBit bytes).length = bytes.length ∧
    ∀ i, bitAt ((List.range' n count).foldl clearBit bytes) i = (bitAt bytes i && decide (i < n ∨ n + count ≤ i)) := by
  induction count generalizing bytes n with
  | zero =>
    refine ⟨rfl, fun i => ?_⟩
    rw [show decide (i < n ∨ n + 0 ≤ i) = true from decide_eq_true (by omega), Bool.and_true]
    rfl
  | succ count ih =>
    rw [range'_succ, foldl_cons]
    obtain ⟨hlength, hbits⟩ := ih (clearBit bytes n) (n + 1) (by rw [length_clearBit]; omega)
    refine ⟨hlength.trans (length_clearBit _ _), fun i => ?_⟩
    rw [hbits, bitAt_clearBit (by omega), Bool.and_assoc, ← Bool.decide_and]
    congr 2
    rw [eq_iff_iff]
    omega

theorem length_clearFrom (h : n ≤ 8 * bytes.length) : (clearFrom bytes n).length = bytes.length := (clearFrom_spec _ bytes n (by omega)).1

theorem bitAt_clearFrom (h : n ≤ 8 * bytes.length) (i : Nat) : bitAt (clearFrom bytes n) i = (bitAt bytes i && decide (i < n)) := by
  rw [clearFrom, (clearFrom_spec _ bytes n (by omega)).2]
  by_cases hbehind : 8 * bytes.length ≤ i
  · rw [bitAt_behind hbehind, Bool.false_and, Bool.false_and]
  · congr 2
    rw [eq_iff_iff]
    omega

/-! ## Comparing -/

theorem byte_ext {a b : UInt8} (h : ∀ i < 8, a.toNat.testBit (7 - i) = b.toNat.testBit (7 - i)) : a = b := by
  refine UInt8.toNat_inj.1 (Nat.eq_of_testBit_eq fun i => ?_)
  by_cases hi : i < 8
  · have hbit := h (7 - i) (by omega)
    rwa [show 7 - (7 - i) = i by omega] at hbit
  · have hpow : 2 ^ 8 ≤ 2 ^ i := Nat.pow_le_pow_right (by decide) (by omega)
    rw [Nat.testBit_lt_two_pow ((UInt8.toNat_lt a).trans_le hpow), Nat.testBit_lt_two_pow ((UInt8.toNat_lt b).trans_le hpow)]

/-- The first bytes are the same where their bits are. -/
theorem take_eq_take {a b : List UInt8} (hlength : a.length = b.length) {w : Nat} (hw : w ≤ a.length) :
    a.take w = b.take w ↔ Agree (bitAt a) (bitAt b) (8 * w) := by
  constructor
  · intro heq i hi
    have hbyte : a.getD (i / 8) 0 = b.getD (i / 8) 0 := by
      have hget : (a.take w)[i / 8]? = (b.take w)[i / 8]? := by rw [heq]
      rw [getElem?_take_of_lt (by omega), getElem?_take_of_lt (by omega)] at hget
      rw [getD_eq_getElem?_getD, getD_eq_getElem?_getD, hget]
    rw [bitAt, bitAt, hbyte]
  · intro hagree
    refine ext_getElem? fun j => ?_
    by_cases hj : j < w
    · rw [getElem?_take_of_lt hj, getElem?_take_of_lt hj, getElem?_eq_getElem (by omega), getElem?_eq_getElem (by omega), Option.some.injEq]
      refine byte_ext fun i hi => ?_
      have hbit := hagree (8 * j + i) (by omega)
      rw [bitAt, bitAt, show (8 * j + i) / 8 = j by omega, show (8 * j + i) % 8 = i by omega,
        getD_eq_getElem _ _ (by omega), getD_eq_getElem _ _ (by omega)] at hbit
      exact hbit
    · rw [getElem?_eq_none (by rw [length_take]; omega), getElem?_eq_none (by rw [length_take]; omega)]

/-- The mask of the first bits of a byte. -/
theorem mask_testBit {r : Nat} (hpos : 0 < r) (hr : r < 8) (hm : m < 8) :
    ((0xFF : UInt8) <<< UInt8.ofNat (8 - r)).toNat.testBit (7 - m) = decide (m < r) := by
  have hshift : (UInt8.ofNat (8 - r)).toNat % 8 = 8 - r := by
    rw [UInt8.toNat_ofNat']
    omega
  rw [UInt8.toNat_shiftLeft, hshift, show (0xFF : UInt8).toNat = 2 ^ 8 - 1 from rfl, Nat.testBit_mod_two_pow,
    Nat.testBit_shiftLeft, Nat.testBit_two_pow_sub_one, ← Bool.decide_and, ← Bool.decide_and]
  exact decide_eq_decide.2 (by omega)

theorem mask_eq_mask {a b : UInt8} {r : Nat} (hpos : 0 < r) (hr : r < 8) :
    a &&& ((0xFF : UInt8) <<< UInt8.ofNat (8 - r)) = b &&& ((0xFF : UInt8) <<< UInt8.ofNat (8 - r)) ↔
    ∀ i < r, a.toNat.testBit (7 - i) = b.toNat.testBit (7 - i) := by
  constructor
  · intro heq i hi
    have hbit : (a &&& ((0xFF : UInt8) <<< UInt8.ofNat (8 - r))).toNat.testBit (7 - i) =
        (b &&& ((0xFF : UInt8) <<< UInt8.ofNat (8 - r))).toNat.testBit (7 - i) := by rw [heq]
    rw [UInt8.toNat_and, UInt8.toNat_and, Nat.testBit_and, Nat.testBit_and, mask_testBit hpos hr (by omega),
      decide_eq_true hi, Bool.and_true, Bool.and_true] at hbit
    exact hbit
  · intro hbits
    refine byte_ext fun i hi => ?_
    rw [UInt8.toNat_and, UInt8.toNat_and, Nat.testBit_and, Nat.testBit_and, mask_testBit hpos hr hi]
    by_cases hin : i < r
    · rw [hbits i hin]
    · rw [decide_eq_false hin, Bool.and_false, Bool.and_false]

/-! ## Numbers -/

/-- The number some bytes are, the high one first. -/
def valueOf : Nat := bytes.foldl (fun value byte => value * 256 + byte.toNat) 0

/-- The last bytes of a number. -/
def bytesOf : Nat → Nat → List UInt8
  | 0, _ => []
  | count + 1, value => bytesOf count (value / 256) ++ [UInt8.ofNat value]

theorem length_bytesOf (count value : Nat) : (bytesOf count value).length = count := by
  induction count generalizing value with
  | zero => rfl
  | succ count ih => rw [bytesOf, length_append, ih, length_singleton]

theorem valueOf_snoc (byte : UInt8) : valueOf (bytes ++ [byte]) = valueOf bytes * 256 + byte.toNat := by
  rw [valueOf, foldl_append, foldl_cons, foldl_nil, valueOf]

theorem valueOf_lt : valueOf bytes < 2 ^ (8 * bytes.length) := by
  induction bytes using List.reverseRecOn with
  | nil => decide
  | append_singleton bytes byte ih =>
    have hbyte := UInt8.toNat_lt byte
    rw [valueOf_snoc, length_append, length_singleton, Nat.mul_add, Nat.pow_add]
    omega

theorem bytesOf_valueOf : bytesOf bytes.length (valueOf bytes) = bytes := by
  induction bytes using List.reverseRecOn with
  | nil => rfl
  | append_singleton bytes byte ih =>
    have hbyte := UInt8.toNat_lt byte
    rw [length_append, length_singleton, bytesOf, valueOf_snoc, show (valueOf bytes * 256 + byte.toNat) / 256 = valueOf bytes by omega, ih]
    congr 2
    refine UInt8.toNat_inj.1 ?_
    rw [UInt8.toNat_ofNat']
    omega

/-- Bytes that are enough for a number. -/
theorem valueOf_bytesOf {count value : Nat} (h : value < 2 ^ (8 * count)) : valueOf (bytesOf count value) = value := by
  induction count generalizing value with
  | zero =>
    rw [Nat.mul_zero, Nat.pow_zero] at h
    show 0 = value
    omega
  | succ count ih =>
    rw [Nat.mul_succ, Nat.pow_add] at h
    have hless : value / 256 < 2 ^ (8 * count) := Nat.div_lt_of_lt_mul (by rw [Nat.mul_comm]; exact h)
    rw [bytesOf, valueOf_snoc, ih hless, UInt8.toNat_ofNat']
    omega

end Throne.Lib.BitBytes
