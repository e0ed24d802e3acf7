import Throne.Global.Otp
import Throne.Lib.BitPacking

/-!
# Base32 of secrets

`Base32Encode` and `Base32Decode` move bits through a buffer. Both repack a stream: the encoder bytes into
digits of five bits, the last one filled up with zeros, the decoder those into bytes. What was encoded is
decoded (`decode_encode`).
-/

namespace Throne.Global.OTP

open Lib.Texts Lib.BitPacking Database.Routes List

/-! ## Digits -/

theorem base32_digit {value : Nat} (h : value < 32) : isFiller (base32Char value) = false ∧ base32Value (base32Char value) = some value := by
  have hall : ∀ v < 32, isFiller (base32Char v) = false ∧ base32Value (base32Char v) = some v := by decide
  exact hall value h

/-- The digits of a stream of bits, the last one filled up. -/
def digitsOf (bits : List Bool) : List Nat :=
  let packed := pack 5 [] bits
  packed.1 ++ if packed.2 = [] then [] else [ofBits (packed.2 ++ List.replicate (5 - packed.2.length) false)]

theorem none_waits : ([] : List Bool).length < 5 := Nat.succ_pos 4

theorem low_bits (buffer width n : Nat) : buffer >>> n &&& 2 ^ width - 1 = ofBits (bitsOf width (buffer >>> n)) := by
  rw [ofBits_bitsOf, Nat.and_two_pow_sub_one_eq_mod]

/-- A step of the buffer takes in the bits of a number. -/
theorem buffer_bits {width low : Nat} (h : low < 2 ^ width) {waiting : Nat} (hroom : waiting + width ≤ 32) (buffer : Nat) :
    bitsOf (waiting + width) ((buffer <<< width ||| low) % 2 ^ 32) = bitsOf waiting buffer ++ bitsOf width low := by
  rw [bitsOf_mod hroom, bitsOf_append h]

/-! ## The encoder -/

theorem emitDigits_pack (buffer fuel bitsLeft : Nat) (h : bitsLeft ≤ fuel) :
    (emitDigits buffer fuel bitsLeft).1 = (pack 5 [] (bitsOf bitsLeft buffer)).1.map base32Char ∧
    bitsOf (emitDigits buffer fuel bitsLeft).2 buffer = (pack 5 [] (bitsOf bitsLeft buffer)).2 ∧ (emitDigits buffer fuel bitsLeft).2 < 5 := by
  induction fuel generalizing bitsLeft with
  | zero =>
    rw [Nat.le_zero.1 h]
    exact ⟨rfl, rfl, Nat.succ_pos 4⟩
  | succ fuel ih =>
    rw [emitDigits]
    split
    · next hmany =>
      obtain ⟨hdigits, hleft, hlt⟩ := ih (bitsLeft - 5) (by omega)
      have hsplit := bitsOf_shift 5 (bitsLeft - 5) buffer
      rw [Nat.add_sub_cancel' hmany] at hsplit
      have hfull : ([] : List Bool).length + (bitsOf 5 (buffer >>> (bitsLeft - 5))).length = 5 := by
        rw [length_bitsOf, length_nil]
      have hpack : pack 5 [] (bitsOf bitsLeft buffer) = ((buffer >>> (bitsLeft - 5) &&& 0x1f) :: (pack 5 [] (bitsOf (bitsLeft - 5) buffer)).1,
            (pack 5 [] (bitsOf (bitsLeft - 5) buffer)).2) := by
        rw [hsplit, pack_append, pack_full hfull (cons_ne_nil _ _)]
        simp only [nil_append, singleton_append]
        rw [← low_bits]
        rfl
      rw [hpack]
      refine ⟨?_, hleft, hlt⟩
      rw [map_cons, ← hdigits]
    · next hfew =>
      have hshort : ([] : List Bool).length + (bitsOf bitsLeft buffer).length < 5 := by
        rw [length_bitsOf, length_nil]
        omega
      rw [pack_short hshort]
      exact ⟨rfl, rfl, Nat.not_le.1 hfew⟩

theorem digitsOf_append (bits more : List Bool) : digitsOf (bits ++ more) = (pack 5 [] bits).1 ++ digitsOf ((pack 5 [] bits).2 ++ more) := by
  have hleft := (pack_lt none_waits bits).2
  unfold digitsOf
  rw [pack_append, pack_waiting hleft]
  simp only [append_assoc]

/-- The encoder writes the digits of the bits that wait and of the bytes. -/
theorem encodeFrom_digits (bytes : Bytes) (buffer bitsLeft : Nat) (h : bitsLeft < 5) : encodeFrom buffer bitsLeft bytes =
    (digitsOf (bitsOf bitsLeft buffer ++ bytes.flatMap fun c => bitsOf 8 c.toNat)).map base32Char := by
  induction bytes generalizing buffer bitsLeft with
  | nil =>
    have hshort : ([] : List Bool).length + (bitsOf bitsLeft buffer).length < 5 := by
      rw [length_bitsOf, length_nil]
      omega
    rw [encodeFrom, flatMap_nil, append_nil, digitsOf, pack_short hshort]
    simp only [nil_append]
    split
    · next hpos =>
      have hne : bitsOf bitsLeft buffer ≠ [] := by
        intro hnil
        have hlength := length_bitsOf bitsLeft buffer
        rw [hnil] at hlength
        exact absurd hlength (Nat.ne_of_lt hpos)
      -- the bits in front of zeros
      have hlast : buffer <<< (5 - bitsLeft) &&& 0x1f = ofBits (bitsOf bitsLeft buffer ++ List.replicate (5 - bitsLeft) false) := by
        have hpow : (2 : Nat) ^ 5 = 2 ^ bitsLeft * 2 ^ (5 - bitsLeft) := by
          rw [← Nat.pow_add]
          congr 1
          omega
        rw [ofBits_zeros, ofBits_bitsOf, show (0x1f : Nat) = 2 ^ 5 - 1 from rfl, Nat.and_two_pow_sub_one_eq_mod,
          Nat.shiftLeft_eq, hpow, Nat.mul_mod_mul_right]
      rw [if_neg hne, length_bitsOf, hlast]
      rfl
    · next hzero =>
      have hnone : bitsLeft = 0 := by omega
      rw [hnone]
      rfl
  | cons c rest ih =>
    have hc : c.toNat < 2 ^ 8 := c.toNat_lt
    obtain ⟨hdigits, hleft, hlt⟩ :=
      emitDigits_pack ((buffer <<< 8 ||| c.toNat) % 2 ^ 32) (bitsLeft + 8) (bitsLeft + 8) (Nat.le_refl _)
    rw [buffer_bits hc (by omega)] at hdigits hleft
    have hdone := digitsOf_append (bitsOf bitsLeft buffer ++ bitsOf 8 c.toNat) (rest.flatMap fun c => bitsOf 8 c.toNat)
    rw [encodeFrom, ih _ _ hlt, hdigits, hleft, flatMap_cons, ← append_assoc, hdone, map_append]

theorem encode_eq (key : Bytes) : Base32Encode key = (digitsOf (key.flatMap fun c => bitsOf 8 c.toNat)).map base32Char := by
  have hencode := encodeFrom_digits key 0 0 (by decide)
  rw [show bitsOf 0 0 = [] from rfl, nil_append] at hencode
  exact hencode

/-- The bits of the digits are the bits that were given, and a few zeros. -/
theorem digitsOf_bits (bits : List Bool) : ∃ k, k < 5 ∧ (digitsOf bits).flatMap (bitsOf 5) = bits ++ List.replicate k false := by
  have hbits := pack_bits none_waits bits
  have hleft := (pack_lt none_waits bits).2
  rw [nil_append] at hbits
  unfold digitsOf
  simp only
  split
  · next hnil =>
    refine ⟨0, by decide, ?_⟩
    rw [hnil] at hbits
    rw [append_nil] at hbits ⊢
    rw [hbits, replicate_zero, append_nil]
  · next hne =>
    have hpos := length_pos_iff.2 hne
    refine ⟨5 - (pack 5 [] bits).2.length, by omega, ?_⟩
    have hlast : bitsOf 5 (ofBits ((pack 5 [] bits).2 ++ List.replicate (5 - (pack 5 [] bits).2.length) false)) =
        (pack 5 [] bits).2 ++ List.replicate (5 - (pack 5 [] bits).2.length) false := by
      have hread := bitsOf_ofBits ((pack 5 [] bits).2 ++ List.replicate (5 - (pack 5 [] bits).2.length) false)
      rw [length_append, length_replicate, Nat.add_sub_cancel' (Nat.le_of_lt hleft)] at hread
      exact hread
    rw [flatMap_append, flatMap_singleton, hlast, ← append_assoc, hbits]

theorem digitsOf_lt (bits : List Bool) : ∀ d ∈ digitsOf bits, d < 32 := by
  obtain ⟨hdigits, hleft⟩ := pack_lt none_waits bits
  intro d hd
  unfold digitsOf at hd
  rcases mem_append.1 hd with hd | hd
  · exact hdigits d hd
  · split at hd
    · cases hd
    · rw [mem_singleton.1 hd]
      have hlt := ofBits_lt ((pack 5 [] bits).2 ++ List.replicate (5 - (pack 5 [] bits).2.length) false)
      rw [length_append, length_replicate, Nat.add_sub_cancel' (Nat.le_of_lt hleft)] at hlt
      exact hlt

/-! ## The decoder -/

/-- The decoder reads the bytes of the bits that wait and of the digits. -/
theorem decodeFrom_digits (digits : List Nat) (hlt : ∀ d ∈ digits, d < 32) (buffer bitsLeft : Nat) (h : bitsLeft < 8) :
    decodeFrom buffer bitsLeft (digits.map base32Char) =
    some ((pack 8 [] (bitsOf bitsLeft buffer ++ digits.flatMap (bitsOf 5))).1.map UInt8.ofNat) := by
  induction digits generalizing buffer bitsLeft with
  | nil =>
    have hshort : ([] : List Bool).length + (bitsOf bitsLeft buffer).length < 8 := by
      rw [length_bitsOf, length_nil]
      omega
    rw [flatMap_nil, append_nil, pack_short hshort]
    rfl
  | cons d digits ih =>
    have hd : d < 2 ^ 5 := hlt d mem_cons_self
    have hrest := ih fun e he => hlt e (mem_cons_of_mem d he)
    obtain ⟨hfiller, hvalue⟩ := base32_digit hd
    have hroom : bitsLeft + 5 ≤ 32 := by omega
    have hbits := buffer_bits hd hroom buffer
    rw [map_cons, decodeFrom, hfiller, if_neg Bool.false_ne_true, hvalue]
    simp only
    rw [flatMap_cons, ← append_assoc, ← hbits]
    split
    · next hbyte =>
      -- the first eight bits make a byte
      have hsplit := bitsOf_shift 8 (bitsLeft + 5 - 8) ((buffer <<< 5 ||| d) % 2 ^ 32)
      rw [Nat.add_sub_cancel' hbyte] at hsplit
      have hfull : ([] : List Bool).length + (bitsOf 8 (((buffer <<< 5 ||| d) % 2 ^ 32) >>> (bitsLeft + 5 - 8))).length = 8 := by
        rw [length_bitsOf, length_nil]
      have hpack (more : List Bool) : pack 8 [] (bitsOf 8 (((buffer <<< 5 ||| d) % 2 ^ 32) >>> (bitsLeft + 5 - 8)) ++ more) =
            ((((buffer <<< 5 ||| d) % 2 ^ 32) >>> (bitsLeft + 5 - 8) &&& 0xff) :: (pack 8 [] more).1, (pack 8 [] more).2) := by
        rw [pack_append, pack_full hfull (cons_ne_nil _ _), nil_append, ← low_bits]
        rfl
      rw [hrest _ _ (by omega), hsplit, append_assoc, hpack]
      rfl
    · exact hrest _ _ (by omega)

/-- **A secret that was encoded is decoded.** -/
theorem decode_encode (key : Bytes) : Base32Decode (Base32Encode key) = some key := by
  obtain ⟨k, hk, hbits⟩ := digitsOf_bits (key.flatMap fun c => bitsOf 8 c.toNat)
  have hdecode := decodeFrom_digits _ (digitsOf_lt (key.flatMap fun c => bitsOf 8 c.toNat)) 0 0 (by decide)
  rw [show bitsOf 0 0 = [] from rfl, nil_append, hbits] at hdecode
  have hbytes : (key.flatMap fun c => bitsOf 8 c.toNat) = (key.map UInt8.toNat).flatMap (bitsOf 8) := by
    rw [flatMap_map]
  have hpacked : pack 8 [] ((key.map UInt8.toNat).flatMap (bitsOf 8)) = (key.map UInt8.toNat, []) := by
    apply pack_flatMap (by decide)
    intro d hd
    obtain ⟨c, -, rfl⟩ := mem_map.1 hd
    exact c.toNat_lt
  -- the zeros are too few for a byte
  have hzeros : ([] : List Bool).length + (List.replicate k false).length < 8 := by
    rw [length_replicate, length_nil]
    omega
  rw [encode_eq, Base32Decode, hdecode, hbytes, pack_append, hpacked, pack_short hzeros, append_nil, map_map]
  congr 1
  have hid : UInt8.ofNat ∘ UInt8.toNat = id := by
    funext c
    exact UInt8.ofNat_toNat
  rw [hid, map_id]

theorem encode_ne_nil {key : Bytes} (h : key ≠ []) : Base32Encode key ≠ [] := by
  intro hnil
  have hdecode := decode_encode key
  rw [hnil] at hdecode
  exact h (Option.some.inj hdecode).symm

/-- There is no space in what is encoded. -/
theorem encode_solid (key : Bytes) : ∀ c ∈ Base32Encode key, isSpace c = false := by
  have hall : ∀ v < 32, isSpace (base32Char v) = false := by decide
  rw [encode_eq]
  intro c hc
  obtain ⟨d, hd, rfl⟩ := mem_map.1 hc
  exact hall d (digitsOf_lt _ d hd)

end Throne.Global.OTP
