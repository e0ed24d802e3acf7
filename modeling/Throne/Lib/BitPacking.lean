import Mathlib.Data.Nat.Bitwise

/-!
# Packing bits into digits

A number of so many bits as a list of them, the most significant first (`bitsOf`, `ofBits`), and a stream of
bits cut into digits of a width (`pack`). Digits that are taken apart are packed again as they were
(`pack_flatMap`); a stream may be packed piece by piece (`pack_append`). An encoder that repacks digits of one
width into another keeps the bits that wait in a buffer: `bitsOf_append` and `bitsOf_shift` say what a shift in
and a shift out do to them.
-/

namespace Throne.Lib.BitPacking

open List

/-- The lowest bits of a number, the most significant first. -/
def bitsOf : Nat → Nat → List Bool
  | 0, _ => []
  | width + 1, n => n.testBit width :: bitsOf width n

section

variable (bits : List Bool)

def ofBits : Nat := bits.foldl (fun n b => 2 * n + b.toNat) 0

@[simp] theorem length_bitsOf (width n : Nat) : (bitsOf width n).length = width := by
  induction width with
  | zero => rfl
  | succ width ih => rw [bitsOf, length_cons, ih]

theorem bitsOf_congr {width m n : Nat} (h : ∀ i < width, m.testBit i = n.testBit i) : bitsOf width m = bitsOf width n := by
  induction width with
  | zero => rfl
  | succ width ih =>
    rw [bitsOf, bitsOf, h width (Nat.lt_succ_self width), ih fun i hi => h i (Nat.lt_succ_of_lt hi)]

/-- Only the lowest bits count. -/
theorem bitsOf_mod {width k : Nat} (h : width ≤ k) (n : Nat) : bitsOf width (n % 2 ^ k) = bitsOf width n := by
  apply bitsOf_congr
  intro i hi
  rw [Nat.testBit_mod_two_pow, decide_eq_true (Nat.lt_of_lt_of_le hi h), Bool.true_and]

/-- The bits in front of the lowest ones. -/
theorem bitsOf_shift (front width n : Nat) : bitsOf (front + width) n = bitsOf front (n >>> width) ++ bitsOf width n := by
  induction front with
  | zero => rw [Nat.zero_add, bitsOf, nil_append]
  | succ front ih =>
    rw [Nat.add_right_comm, bitsOf, bitsOf, cons_append, ih, Nat.testBit_shiftRight, Nat.add_comm width]

/-- A number shifted to make room for another one. -/
theorem bitsOf_append {width low : Nat} (h : low < 2 ^ width) (front n : Nat) :
    bitsOf (front + width) (n <<< width ||| low) = bitsOf front n ++ bitsOf width low := by
  have hdiv : (n <<< width ||| low) >>> width = n := by
    rw [← Nat.shiftLeft_add_eq_or_of_lt h, Nat.shiftLeft_eq, Nat.shiftRight_eq_div_pow, Nat.mul_comm,
      Nat.mul_add_div (Nat.two_pow_pos width), Nat.div_eq_of_lt h, Nat.add_zero]
  rw [bitsOf_shift, hdiv]
  congr 1
  apply bitsOf_congr
  intro i hi
  rw [Nat.testBit_or, Nat.testBit_shiftLeft, decide_eq_false (Nat.not_le.2 hi), Bool.false_and, Bool.false_or]

theorem ofBits_foldl (n : Nat) : bits.foldl (fun n b => 2 * n + b.toNat) n = n * 2 ^ bits.length + ofBits bits := by
  induction bits generalizing n with
  | nil => simp [ofBits]
  | cons b bits ih =>
    rw [ofBits, foldl_cons, foldl_cons, ih, ih (2 * 0 + b.toNat), length_cons, Nat.pow_succ']
    rw [Nat.mul_zero, Nat.zero_add, Nat.add_mul, Nat.mul_assoc, Nat.mul_left_comm, Nat.add_assoc]

theorem ofBits_cons (b : Bool) (bits : List Bool) : ofBits (b :: bits) = b.toNat * 2 ^ bits.length + ofBits bits := by
  show List.foldl _ (2 * 0 + b.toNat) bits = _
  rw [ofBits_foldl, Nat.mul_zero, Nat.zero_add]

theorem ofBits_append (bits more : List Bool) : ofBits (bits ++ more) = ofBits bits * 2 ^ more.length + ofBits more := by
  rw [ofBits, foldl_append, ofBits_foldl]
  rfl

theorem ofBits_bitsOf (width n : Nat) : ofBits (bitsOf width n) = n % 2 ^ width := by
  induction width with
  | zero => simp [bitsOf, ofBits, Nat.mod_one]
  | succ width ih =>
    rw [bitsOf, ofBits_cons, ih, length_bitsOf, Nat.toNat_testBit, Nat.mod_pow_succ, Nat.mul_comm, Nat.add_comm]

/-- Zeros behind a number. -/
theorem ofBits_zeros (k : Nat) : ofBits (bits ++ List.replicate k false) = ofBits bits * 2 ^ k := by
  have hzero : ofBits (List.replicate k false) = 0 := by
    induction k with
    | zero => rfl
    | succ k ih =>
      rw [replicate_succ, ofBits_cons, ih]
      simp
  rw [ofBits_append, hzero, length_replicate, Nat.add_zero]

theorem ofBits_lt : ofBits bits < 2 ^ bits.length := by
  induction bits with
  | nil => exact Nat.one_pos
  | cons b bits ih =>
    have hb : b.toNat ≤ 1 := Bool.toNat_le b
    have hfirst : b.toNat * 2 ^ bits.length ≤ 1 * 2 ^ bits.length := Nat.mul_le_mul_right _ hb
    rw [ofBits_cons, length_cons, Nat.pow_succ]
    omega

theorem bitsOf_ofBits : bitsOf bits.length (ofBits bits) = bits := by
  induction bits with
  | nil => rfl
  | cons b bits ih =>
    have hlt := ofBits_lt bits
    have hshift : ofBits (b :: bits) = b.toNat <<< bits.length ||| ofBits bits := by
      rw [ofBits_cons, ← Nat.shiftLeft_eq, Nat.shiftLeft_add_eq_or_of_lt hlt]
    have hbit : bitsOf 1 b.toNat = [b] := by cases b <;> rfl
    rw [length_cons, Nat.add_comm, hshift, bitsOf_append hlt, ih, hbit]
    rfl

end

/-! ## Packing -/

/-- The digits of a width that a stream of bits makes up behind those that wait, and the bits that are left. -/
def pack (width : Nat) : List Bool → List Bool → List Nat × List Bool
  | waiting, [] => ([], waiting)
  | waiting, b :: bits =>
    if waiting.length + 1 = width then
      (ofBits (waiting ++ [b]) :: (pack width [] bits).1, (pack width [] bits).2)
    else pack width (waiting ++ [b]) bits

section Pack

variable {width : Nat}

theorem pack_append (waiting bits more : List Bool) : pack width waiting (bits ++ more) =
    ((pack width waiting bits).1 ++ (pack width (pack width waiting bits).2 more).1, (pack width (pack width waiting bits).2 more).2) := by
  induction bits generalizing waiting with
  | nil => rfl
  | cons b bits ih =>
    rw [cons_append, pack, pack]
    split
    · rw [ih, cons_append]
    · exact ih _

variable {waiting : List Bool}

/-- Too few bits for a digit wait. -/
theorem pack_short {bits : List Bool} (h : waiting.length + bits.length < width) : pack width waiting bits = ([], waiting ++ bits) := by
  induction bits generalizing waiting with
  | nil => rw [pack, append_nil]
  | cons b bits ih =>
    rw [length_cons] at h
    rw [pack, if_neg (by omega), ih, append_assoc, singleton_append]
    rw [length_append, length_singleton]
    omega

/-- As many bits as a digit has. -/
theorem pack_full {bits : List Bool} (h : waiting.length + bits.length = width) (hne : bits ≠ []) :
    pack width waiting bits = ([ofBits (waiting ++ bits)], []) := by
  induction bits generalizing waiting with
  | nil => exact absurd rfl hne
  | cons b bits ih =>
    rw [length_cons] at h
    rw [pack]
    split
    · next hlast =>
      have hnil : bits = [] := eq_nil_of_length_eq_zero (by omega)
      rw [hnil]
      rfl
    · next hmore =>
      have hrest : bits ≠ [] := by
        rintro rfl
        exact hmore h
      rw [ih _ hrest, append_assoc, singleton_append]
      rw [length_append, length_singleton]
      omega

/-- The bits that wait are as good as in front of the stream. -/
theorem pack_waiting (h : waiting.length < width) (bits : List Bool) : pack width waiting bits = pack width [] (waiting ++ bits) := by
  have hfew : ([] : List Bool).length + waiting.length < width := by rwa [length_nil, Nat.zero_add]
  rw [pack_append, pack_short hfew]
  rfl

/-- No bit is lost. -/
theorem pack_bits (h : waiting.length < width) (bits : List Bool) :
    (pack width waiting bits).1.flatMap (bitsOf width) ++ (pack width waiting bits).2 = waiting ++ bits := by
  induction bits generalizing waiting with
  | nil => rw [pack, flatMap_nil, nil_append, append_nil]
  | cons b bits ih =>
    rw [pack]
    split
    · next hfull =>
      have hdigit : bitsOf width (ofBits (waiting ++ [b])) = waiting ++ [b] := by
        have hlength : (waiting ++ [b]).length = width := by rw [length_append, length_singleton, hfull]
        have hread := bitsOf_ofBits (waiting ++ [b])
        rw [hlength] at hread
        exact hread
      have hnone : ([] : List Bool).length < width := by
        rw [length_nil]
        omega
      have hrest := ih hnone
      rw [nil_append] at hrest
      rw [flatMap_cons, append_assoc, hrest, hdigit, append_assoc, singleton_append]
    · rw [ih, append_assoc, singleton_append]
      rw [length_append, length_singleton]
      omega

theorem pack_lt (h : waiting.length < width) (bits : List Bool) :
    (∀ d ∈ (pack width waiting bits).1, d < 2 ^ width) ∧ (pack width waiting bits).2.length < width := by
  induction bits generalizing waiting with
  | nil => exact ⟨nofun, h⟩
  | cons b bits ih =>
    rw [pack]
    split
    · next hfull =>
      have hlength : (waiting ++ [b]).length = width := by rw [length_append, length_singleton, hfull]
      have hnone : ([] : List Bool).length < width := by
        rw [length_nil]
        omega
      have hrest := ih hnone
      refine ⟨fun d hd => ?_, hrest.2⟩
      rcases mem_cons.1 hd with rfl | hd
      · rw [← hlength]
        exact ofBits_lt _
      · exact hrest.1 d hd
    · apply ih
      rw [length_append, length_singleton]
      omega

/-- **Digits taken apart are packed again.** -/
theorem pack_flatMap (hwidth : 0 < width) {digits : List Nat} (hlt : ∀ d ∈ digits, d < 2 ^ width) :
    pack width [] (digits.flatMap (bitsOf width)) = (digits, []) := by
  induction digits with
  | nil => rfl
  | cons d digits ih =>
    have hne : bitsOf width d ≠ [] := by
      intro hnil
      have hlength := length_bitsOf width d
      rw [hnil] at hlength
      exact absurd hlength (Nat.ne_of_lt hwidth)
    have hlength : ([] : List Bool).length + (bitsOf width d).length = width := by
      rw [length_nil, Nat.zero_add, length_bitsOf]
    rw [flatMap_cons, pack_append, pack_full hlength hne, ih fun e he => hlt e (mem_cons_of_mem d he)]
    simp only [nil_append, singleton_append, ofBits_bitsOf]
    rw [Nat.mod_eq_of_lt (hlt d mem_cons_self)]

end Pack

end Throne.Lib.BitPacking
