import Mathlib.Data.Nat.Digits.Lemmas

/-!
# Length-prefixed frames in a byte stream

A `Framing` says how a value is written as a block of symbols and how much of a buffer its first
frame takes, once the buffer holds a complete header. A stream is the concatenation of the frames of
a list of values; a reader holds some prefix of it, cut anywhere. `cut_of_size` is the rule a reader
loop uses: when the size announced by the buffer is there, the buffer starts with exactly the next
frame of the stream, and what is left of the buffer continues the rest of the stream.

The second part has the fixed-width little-endian numbers that headers are made of.
-/

namespace Throne.Lib.Frames

open List

universe u v

/-- Values `φ` written as blocks of symbols `β` whose length a header tells. -/
structure Framing (β : Type u) (φ : Type v) where
  encode : φ → List β
  /-- The size of the first frame of a buffer, once its header is complete. -/
  size : List β → Option Nat
  size_pos : ∀ buf k, size buf = some k → 0 < k
  size_encode : ∀ f rest, size (encode f ++ rest) = some (encode f).length
  /-- A buffer that ends inside a frame tells nothing or the size of that frame. -/
  size_inside : ∀ f part rest, part ++ rest = encode f → size part = none ∨ size part = some (encode f).length

namespace Framing

variable {β : Type u} {φ : Type v} (F : Framing β φ)

/-- What a writer of the values `fs` puts on the stream. -/
def stream (fs : List φ) : List β := fs.flatMap F.encode

@[simp] theorem stream_nil : F.stream [] = [] := rfl

@[simp] theorem stream_cons (f : φ) (fs : List φ) :
    F.stream (f :: fs) = F.encode f ++ F.stream fs := flatMap_cons

@[simp] theorem stream_append (fs gs : List φ) :
    F.stream (fs ++ gs) = F.stream fs ++ F.stream gs := flatMap_append

/-- The buffer of a reader that holds the announced size starts with the next frame of the stream. -/
theorem cut_of_size {fs : List φ} {buf rest : List β} {k : Nat}
    (hbuf : buf ++ rest = F.stream fs) (hsize : F.size buf = some k) (hk : k ≤ buf.length) :
    ∃ f gs, fs = f :: gs ∧ k = (F.encode f).length ∧ buf = F.encode f ++ buf.drop k ∧ buf.drop k ++ rest = F.stream gs := by
  cases fs with
  | nil =>
    -- The stream has ended, so the buffer is empty and cannot hold a frame.
    have hempty : buf = [] := (append_eq_nil_iff.1 hbuf).1
    have hpos := F.size_pos buf k hsize
    subst hempty
    simp only [length_nil] at hk
    omega
  | cons f gs =>
    rw [stream_cons] at hbuf
    rcases append_eq_append_iff.1 hbuf with ⟨more, hmore, _⟩ | ⟨left, hleft, hgs⟩
    · -- The buffer ends inside the first frame.
      rcases F.size_inside f buf more hmore.symm with hnone | hsome
      · rw [hnone] at hsize
        cases hsize
      · rw [hsome, Option.some.injEq] at hsize
        have hlen : (F.encode f).length = buf.length + more.length := by
          rw [hmore, length_append]
        have hzero : more = [] := eq_nil_of_length_eq_zero (by omega)
        subst hzero
        rw [append_nil] at hmore
        refine ⟨f, gs, rfl, hsize.symm, ?_, ?_⟩
        · rw [← hsize, hmore]
          simp
        · have hdrop : buf.drop k = [] := by
            rw [← hsize, hmore, drop_length]
          rw [hdrop, nil_append]
          rw [hmore] at hbuf
          exact append_cancel_left hbuf
    · -- The buffer holds the first frame and `left` after it.
      have hsome := F.size_encode f left
      rw [← hleft, hsize, Option.some.injEq] at hsome
      have hdrop : buf.drop k = left := by
        rw [hsome, hleft, drop_left]
      refine ⟨f, gs, rfl, hsome, ?_, ?_⟩
      · rw [hdrop]
        exact hleft
      · rw [hdrop]
        exact hgs.symm

end Framing

/-! ## Little-endian numbers -/

/-- `n` in `width` bytes, the least significant first; higher bits are lost. -/
def leBytes : Nat → Nat → List UInt8
  | 0, _ => []
  | width + 1, n => UInt8.ofNat n :: leBytes width (n / 256)

/-- The number written in `bytes`, the least significant first. -/
def leValue (bytes : List UInt8) : Nat := Nat.ofDigits 256 (bytes.map UInt8.toNat)

@[simp] theorem length_leBytes (width n : Nat) : (leBytes width n).length = width := by
  induction width generalizing n with
  | zero => rfl
  | succ width ih => rw [leBytes, length_cons, ih]

theorem leValue_leBytes (width n : Nat) : leValue (leBytes width n) = n % 256 ^ width := by
  induction width generalizing n with
  | zero => simp [leBytes, leValue, Nat.mod_one]
  | succ width ih =>
    have htail : Nat.ofDigits 256 ((leBytes width (n / 256)).map UInt8.toNat) = n / 256 % 256 ^ width := ih (n / 256)
    have hhead : (UInt8.ofNat n).toNat = n % 256 := UInt8.toNat_ofNat' ..
    rw [leBytes, leValue, map_cons, Nat.ofDigits_cons, htail, hhead, Nat.pow_succ']
    exact (Nat.mod_mul ..).symm

/-- A number that fits its width is read back. -/
theorem leValue_leBytes_of_lt {width n : Nat} (h : n < 256 ^ width) : leValue (leBytes width n) = n := by
  rw [leValue_leBytes, Nat.mod_eq_of_lt h]

end Throne.Lib.Frames
