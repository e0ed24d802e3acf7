import Throne.Global.OtpBase32

/-!
# Secrets as they are written

A secret is written with blanks and hyphens between its digits, in letters of either case, padded or not.
`NormalizeSecret` writes it in one way and keeps its bytes (`normalize_decodes`); how it was written does not count
(`decode_respelled`). The buffers of 32 bits lose nothing: with all bits kept the loops write the same digits and
bytes (`encode_wide`, `decode_wide`), since an output depends on the bits that wait and on no others.
-/

namespace Throne.Global.OTP

open Lib.Texts Lib.BitPacking List

/-! ## Normal form -/

variable {secret : Text}

theorem normalize_of_decoded {key : Bytes} (hkey : Base32Decode secret = some key) (hne : key ≠ []) : NormalizeSecret secret = Base32Encode key := by
  rw [NormalizeSecret, hkey]
  exact if_neg hne

/-- The normal form decodes to the same bytes. -/
theorem normalize_decodes {key : Bytes} (hkey : Base32Decode secret = some key) (hne : key ≠ []) :
    Base32Decode (NormalizeSecret secret) = some key := by
  rw [normalize_of_decoded hkey hne]
  exact decode_encode key

theorem normalize_idempotent (secret : Text) : NormalizeSecret (NormalizeSecret secret) = NormalizeSecret secret := by
  cases hdecode : Base32Decode secret with
  | none =>
    have hnone : NormalizeSecret secret = [] := by
      rw [NormalizeSecret, hdecode]
    rw [hnone]
    rfl
  | some key =>
    by_cases hne : key = []
    · have hnone : NormalizeSecret secret = [] := by
        rw [NormalizeSecret, hdecode]
        exact if_pos hne
      rw [hnone]
      rfl
    · rw [normalize_of_decoded (normalize_decodes hdecode hne) hne, normalize_of_decoded hdecode hne]

/-! ## Spelling -/

/-- Another spelling: characters between the digits put in, letters in another case. -/
inductive Respelled : Text → Text → Prop
  | refl (secret : Text) : Respelled secret secret
  | filler {secret front back : Text} {c : Char} : isFiller c = true → Respelled secret (front ++ back) →
      Respelled secret (front ++ c :: back)
  | letter {secret front back : Text} {c d : Char} : c.toUpper = d.toUpper → Respelled secret (front ++ c :: back) →
      Respelled secret (front ++ d :: back)

/-- A letter is a digit in either case. -/
theorem upper_digit (c : Char) : isFiller c.toUpper = isFiller c ∧ base32Value c.toUpper = base32Value c := by
  by_cases hlower : 97 ≤ c.toNat ∧ c.toNat ≤ 122
  · have hall : ∀ n ∈ List.range' 97 26, isFiller (Char.ofNat n).toUpper = isFiller (Char.ofNat n) ∧
        base32Value (Char.ofNat n).toUpper = base32Value (Char.ofNat n) := by decide
    have hletter := hall c.toNat (mem_range'_1.2 ⟨hlower.1, by omega⟩)
    rw [Char.ofNat_toNat] at hletter
    exact hletter
  · have hsame : c.toUpper = c := by
      refine dif_neg ?_
      rintro ⟨hlow, hhigh⟩
      exact hlower ⟨UInt32.le_iff_toNat_le.1 hlow, UInt32.le_iff_toNat_le.1 hhigh⟩
    rw [hsame]
    exact ⟨rfl, rfl⟩

/-- What counts of a text: its digits, in upper case. -/
def significant (text : Text) : Text := (text.filter fun c => !isFiller c).map Char.toUpper

/-- The decoder reads what counts. -/
theorem decodeFrom_significant (text : Text) (buffer bitsLeft : Nat) :
    decodeFrom buffer bitsLeft (significant text) = decodeFrom buffer bitsLeft text := by
  induction text generalizing buffer bitsLeft with
  | nil => rfl
  | cons c rest ih =>
    rw [significant, filter_cons, decodeFrom]
    cases hfiller : isFiller c with
    | true => exact ih buffer bitsLeft
    | false =>
      obtain ⟨hsame, hvalue⟩ := upper_digit c
      have hrest (buffer bitsLeft : Nat) : decodeFrom buffer bitsLeft ((rest.filter fun c => !isFiller c).map Char.toUpper) =
            decodeFrom buffer bitsLeft rest := ih buffer bitsLeft
      rw [Bool.not_false, if_pos rfl, map_cons, decodeFrom, hsame, hfiller, hvalue]
      simp only [hrest]

variable {spelled : Text}

theorem significant_respelled (h : Respelled secret spelled) : significant spelled = significant secret := by
  induction h with
  | refl => rfl
  | filler hfiller _ ih =>
    rw [← ih]
    simp only [significant, filter_append, filter_cons, hfiller, Bool.not_true, Bool.false_eq_true, if_false]
  | @letter front back c d hcase _ ih =>
    rw [← ih]
    have hsame : isFiller d = isFiller c := by
      rw [← (upper_digit d).1, ← hcase, (upper_digit c).1]
    simp only [significant, filter_append, filter_cons, hsame]
    split
    · simp only [map_append, map_cons, hcase]
    · rfl

/-- **How a secret is written does not count.** -/
theorem decode_respelled (h : Respelled secret spelled) : Base32Decode spelled = Base32Decode secret := by
  rw [Base32Decode, Base32Decode, ← decodeFrom_significant spelled, significant_respelled h, decodeFrom_significant]

theorem normalize_respelled (h : Respelled secret spelled) : NormalizeSecret spelled = NormalizeSecret secret := by
  rw [NormalizeSecret, NormalizeSecret, decode_respelled h]

/-! ## Buffers that keep all bits -/

/-- `decodeFrom` on a buffer without a bound. -/
def decodeWide : Nat → Nat → Text → Option Bytes
  | _, _, [] => some []
  | buffer, bitsLeft, c :: rest =>
    if isFiller c then decodeWide buffer bitsLeft rest
    else
      match base32Value c with
      | none => none
      | some value =>
        let buffer := buffer <<< 5 ||| value
        if 8 ≤ bitsLeft + 5 then
          (decodeWide buffer (bitsLeft + 5 - 8) rest).map fun out =>
            UInt8.ofNat (buffer >>> (bitsLeft + 5 - 8) &&& 0xff) :: out
        else decodeWide buffer (bitsLeft + 5) rest

/-- `encodeFrom` on a buffer without a bound. -/
def encodeWide : Nat → Nat → Bytes → Text
  | buffer, bitsLeft, [] =>
    if 0 < bitsLeft then [base32Char (buffer <<< (5 - bitsLeft) &&& 0x1f)] else []
  | buffer, bitsLeft, c :: rest =>
    let buffer := buffer <<< 8 ||| c.toNat
    let emitted := emitDigits buffer (bitsLeft + 8) (bitsLeft + 8)
    emitted.1 ++ encodeWide buffer emitted.2 rest

theorem base32Value_lt {c : Char} {value : Nat} (h : base32Value c = some value) : value < 2 ^ 5 := by
  have hle {a b : Char} (hab : a ≤ b) : a.toNat ≤ b.toNat := UInt32.le_iff_toNat_le.1 hab
  rw [base32Value] at h
  split at h
  · next hupper =>
    have hhigh : c.toNat ≤ 90 := hle hupper.2
    cases h
    exact Nat.lt_of_le_of_lt (Nat.sub_le_sub_right hhigh 65) (by decide)
  split at h
  · next hlower =>
    have hhigh : c.toNat ≤ 122 := hle hlower.2
    cases h
    exact Nat.lt_of_le_of_lt (Nat.sub_le_sub_right hhigh 97) (by decide)
  split at h
  · next hdigit =>
    have hhigh : c.toNat ≤ 55 := hle hdigit.2
    cases h
    exact Nat.lt_of_le_of_lt (Nat.add_le_add_right (Nat.sub_le_sub_right hhigh 50) 26) (by decide)
  · cases h

/-- Buffers that agree on the bits that wait decode alike. -/
theorem decodeWide_eq (text : Text) {wide buffer bitsLeft : Nat} (hbits : bitsOf bitsLeft wide = bitsOf bitsLeft buffer)
    (h : bitsLeft < 8) : decodeWide wide bitsLeft text = decodeFrom buffer bitsLeft text := by
  induction text generalizing wide buffer bitsLeft with
  | nil => rfl
  | cons c rest ih =>
    rw [decodeWide, decodeFrom]
    split
    · exact ih hbits h
    cases hvalue : base32Value c with
    | none => rfl
    | some value =>
      have hlt := base32Value_lt hvalue
      have hroom : bitsLeft + 5 ≤ 32 := by omega
      have hnext : bitsOf (bitsLeft + 5) (wide <<< 5 ||| value) = bitsOf (bitsLeft + 5) ((buffer <<< 5 ||| value) % 2 ^ 32) := by
        rw [bitsOf_append hlt, buffer_bits hlt hroom, hbits]
      simp only
      split
      · next hbyte =>
        -- eight bits in front, the rest behind
        have hsplit (n : Nat) : bitsOf (bitsLeft + 5) n = bitsOf 8 (n >>> (bitsLeft + 5 - 8)) ++ bitsOf (bitsLeft + 5 - 8) n := by
          rw [← bitsOf_shift, Nat.add_sub_cancel' hbyte]
        rw [hsplit, hsplit] at hnext
        obtain ⟨hfront, hrest⟩ := append_inj hnext (by rw [length_bitsOf, length_bitsOf])
        have hout := congrArg ofBits hfront
        rw [← low_bits, ← low_bits] at hout
        rw [ih hrest (by omega)]
        exact congrArg (fun byte => Option.map (fun out => UInt8.ofNat byte :: out) _) hout
      · exact ih hnext (by omega)

theorem decode_wide (text : Text) : decodeWide 0 0 text = Base32Decode text := decodeWide_eq text rfl (by decide)

/-- Buffers that agree on the bits that wait encode alike. -/
theorem encodeWide_eq (bytes : Bytes) {wide buffer bitsLeft : Nat} (hbits : bitsOf bitsLeft wide = bitsOf bitsLeft buffer) (h : bitsLeft < 5) :
    encodeWide wide bitsLeft bytes = encodeFrom buffer bitsLeft bytes := by
  induction bytes generalizing wide buffer bitsLeft with
  | nil =>
    have hlast : encodeWide wide bitsLeft [] = encodeFrom wide bitsLeft [] := rfl
    rw [hlast, encodeFrom_digits [] wide bitsLeft h, encodeFrom_digits [] buffer bitsLeft h, hbits]
  | cons c rest ih =>
    have hc : c.toNat < 2 ^ 8 := c.toNat_lt
    have hnext : bitsOf (bitsLeft + 8) (wide <<< 8 ||| c.toNat) = bitsOf (bitsLeft + 8) ((buffer <<< 8 ||| c.toNat) % 2 ^ 32) := by
      rw [bitsOf_append hc, buffer_bits hc (by omega), hbits]
    obtain ⟨hdigits, hleft, hlt⟩ := emitDigits_pack (wide <<< 8 ||| c.toNat) (bitsLeft + 8) (bitsLeft + 8) (Nat.le_refl _)
    obtain ⟨hdigits', hleft', -⟩ :=
      emitDigits_pack ((buffer <<< 8 ||| c.toNat) % 2 ^ 32) (bitsLeft + 8) (bitsLeft + 8) (Nat.le_refl _)
    rw [hnext] at hdigits hleft
    have hcount : (emitDigits (wide <<< 8 ||| c.toNat) (bitsLeft + 8) (bitsLeft + 8)).2 =
        (emitDigits ((buffer <<< 8 ||| c.toNat) % 2 ^ 32) (bitsLeft + 8) (bitsLeft + 8)).2 := by
      have hlength := congrArg List.length (hleft.trans hleft'.symm)
      rw [length_bitsOf, length_bitsOf] at hlength
      exact hlength
    rw [encodeWide, encodeFrom, hdigits, hdigits']
    congr 1
    rw [← hcount]
    apply ih _ hlt
    rw [hcount] at hleft ⊢
    exact hleft.trans hleft'.symm

theorem encode_wide (bytes : Bytes) : encodeWide 0 0 bytes = Base32Encode bytes := encodeWide_eq bytes rfl (by decide)

/-- **Nothing of a secret is lost**, by encoding, by the normal form, by spelling, or out of a buffer. -/
theorem base32_lossless : (∀ key, Base32Decode (Base32Encode key) = some key) ∧
    (∀ secret key, Base32Decode secret = some key → key ≠ [] → Base32Decode (NormalizeSecret secret) = some key) ∧
    (∀ secret, NormalizeSecret (NormalizeSecret secret) = NormalizeSecret secret) ∧ (∀ secret spelled, Respelled secret spelled →
    Base32Decode spelled = Base32Decode secret ∧ NormalizeSecret spelled = NormalizeSecret secret) ∧
    (∀ key, encodeWide 0 0 key = Base32Encode key) ∧ ∀ text, decodeWide 0 0 text = Base32Decode text :=
  ⟨decode_encode, fun _ _ => normalize_decodes, normalize_idempotent,
    fun _ _ h => ⟨decode_respelled h, normalize_respelled h⟩, encode_wide, decode_wide⟩

theorem secret_lossless : Base32Decode (NormalizeSecret "jbsw-y3dp ehpk3pxp".toList) = some [72, 101, 108, 108, 111, 33, 222, 173, 190, 239] ∧
    Base32Decode ('=' :: "jbsw-y3dp ehpk3pxp".toList) = Base32Decode "jbsw-y3dp ehpk3pxp".toList :=
  ⟨base32_lossless.2.1 _ _ (by decide) (cons_ne_nil _ _),
    (base32_lossless.2.2.2.1 _ _ (@Respelled.filler _ [] _ '=' (by decide) (Respelled.refl _))).1⟩

end Throne.Global.OTP
