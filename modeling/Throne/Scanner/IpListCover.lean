import Throne.Scanner.IpListParse
import Throne.Scanner.IpListAddressText
import Throne.Lib.Dyadic

/-!
# The blocks of a range

The loop of `ipListParseCoverRange` works on two words of 64 bits. On the numbers the words make, it is the
greedy cover of the range by aligned blocks (`coverLoop_cover`), and it comes to its end.
-/

namespace Throne.Scanner.IpListParse

open Lib.Texts Lib.Dyadic

/-! ## Bits -/

variable {n : Nat}

theorem countrZero_spec {width : Nat} (hlt : n < 2 ^ width) (hne : n ≠ 0) : ∀ j, 2 ^ j ∣ n ↔ j ≤ countrZero width n := by
  induction width generalizing n with
  | zero => exact absurd (Nat.lt_one_iff.1 hlt) hne
  | succ width ih =>
    intro j
    rw [countrZero]
    split
    · next hodd =>
      -- an odd number
      cases j with
      | zero => simp
      | succ j =>
        constructor
        · intro hdvd
          have htwo : 2 ∣ n := Nat.dvd_trans ⟨2 ^ j, by rw [Nat.pow_succ, Nat.mul_comm]⟩ hdvd
          omega
        · intro hle
          omega
    · next heven =>
      have hhalf : n = 2 * (n / 2) := by omega
      have hrest := ih (n := n / 2) (by omega) (by omega)
      cases j with
      | zero => simp
      | succ j =>
        rw [Nat.succ_le_succ_iff, ← hrest j]
        conv => lhs; rw [hhalf, Nat.pow_succ, Nat.mul_comm]
        exact Nat.mul_dvd_mul_iff_left (by decide)

variable {j : Nat}

theorem le_log2_iff (hne : n ≠ 0) : 2 ^ j ≤ n ↔ j ≤ bitWidth n - 1 := by
  rw [bitWidth, if_neg hne, Nat.add_sub_cancel]
  exact (Nat.le_log2 hne).symm

variable {k : Nat}

/-- Ones below an aligned number. -/
theorem or_ones (h : 2 ^ k ∣ n) : n ||| (2 ^ k - 1) = n + (2 ^ k - 1) := by
  obtain ⟨m, rfl⟩ := h
  exact (Nat.two_pow_add_eq_or_of_lt (Nat.sub_lt (Nat.two_pow_pos k) Nat.one_pos) m).symm

/-- What divides two words as a number: the low one as long as it is shorter than a word. -/
theorem dvd_words {hi lo : Nat} (hj : j ≤ 64) : 2 ^ j ∣ hi * 2 ^ 64 + lo ↔ 2 ^ j ∣ lo := by
  have hword : 2 ^ j ∣ hi * 2 ^ 64 := Nat.dvd_mul_left_of_dvd (Nat.pow_dvd_pow 2 hj) hi
  exact (Nat.dvd_add_right hword)

/-- And from a word on the low one is zero. -/
theorem dvd_words_long {hi lo : Nat} (hlo : lo < 2 ^ 64) : 2 ^ (64 + j) ∣ hi * 2 ^ 64 + lo ↔ lo = 0 ∧ 2 ^ j ∣ hi := by
  have hword : (2 : Nat) ^ (64 + j) = 2 ^ j * 2 ^ 64 := by rw [Nat.pow_add, Nat.mul_comm]
  constructor
  · intro h
    have hlow : 2 ^ 64 ∣ lo := (dvd_words (Nat.le_refl 64)).1 (Nat.dvd_trans ⟨2 ^ j, by rw [hword, Nat.mul_comm]⟩ h)
    have hzero : lo = 0 := Nat.eq_zero_of_dvd_of_lt hlow hlo
    rw [hzero, Nat.add_zero, hword] at h
    exact ⟨hzero, Nat.dvd_of_mul_dvd_mul_right (Nat.two_pow_pos 64) h⟩
  · rintro ⟨rfl, h⟩
    rw [Nat.add_zero, hword]
    exact Nat.mul_dvd_mul_right h _

/-! ## Addresses as numbers -/

section Values

variable {addr first last : IpListParseAddr}

theorem value_lt (h : addr.Valid) : addr.value < 2 ^ ipListParseBits addr := by
  obtain ⟨v6, hi, lo⟩ := addr
  cases v6 with
  | false =>
    obtain ⟨hhi, hlo⟩ : hi = 0 ∧ lo < 2 ^ 32 := h
    show hi * 2 ^ 64 + lo < 2 ^ 32
    omega
  | true =>
    obtain ⟨hhi, hlo⟩ : hi < 2 ^ 64 ∧ lo < 2 ^ 64 := h
    show hi * 2 ^ 64 + lo < 2 ^ 128
    omega

theorem valid_words (h : addr.Valid) : addr.hi < 2 ^ 64 ∧ addr.lo < 2 ^ 64 := by
  obtain ⟨v6, hi, lo⟩ := addr
  cases v6 with
  | false =>
    obtain ⟨hhi, hlo⟩ : hi = 0 ∧ lo < 2 ^ 32 := h
    show hi < 2 ^ 64 ∧ lo < 2 ^ 64
    omega
  | true => exact h

theorem value_inj (ha : first.Valid) (hb : last.Valid) (hfamily : first.v6 = last.v6) (h : first.value = last.value) : first = last := by
  have hfirst := valid_words ha
  have hlast := valid_words hb
  obtain ⟨v6, hi, lo⟩ := first
  obtain ⟨v6', hi', lo'⟩ := last
  simp only [IpListParseAddr.value] at h hfirst hlast hfamily
  have hhi : hi = hi' := by omega
  have hlo : lo = lo' := by omega
  rw [hfamily, hhi, hlo]

/-- The address of a family at a number. -/
def ofValue (v6 : Bool) (n : Nat) : IpListParseAddr := ⟨v6, n / 2 ^ 64, n % 2 ^ 64⟩

theorem ofValue_value (h : addr.Valid) : ofValue addr.v6 addr.value = addr := by
  have hwords := valid_words h
  obtain ⟨v6, hi, lo⟩ := addr
  simp only at hwords
  simp only [ofValue, IpListParseAddr.value]
  congr 1 <;> omega

theorem value_ofValue (v6 : Bool) (n : Nat) : (ofValue v6 n).value = n := by
  simp only [ofValue, IpListParseAddr.value]
  omega

theorem ofValue_v6 (v6 : Bool) (n : Nat) : (ofValue v6 n).v6 = v6 := rfl

theorem ofValue_valid {v6 : Bool} (h : n < 2 ^ (if v6 then 128 else 32)) : (ofValue v6 n).Valid := by
  cases v6 with
  | false =>
    have hn : n < 2 ^ 32 := h
    show n / 2 ^ 64 = 0 ∧ n % 2 ^ 64 < 2 ^ 32
    omega
  | true =>
    have hn : n < 2 ^ 128 := h
    show n / 2 ^ 64 < 2 ^ 64 ∧ n % 2 ^ 64 < 2 ^ 64
    omega

/-! ## One block -/

theorem dvd_iff_le_align (h : addr.Valid) (hne : addr.value ≠ 0) (j : Nat) : 2 ^ j ∣ addr.value ↔ j ≤ coverAlign addr := by
  have hwords := valid_words h
  have hfits : 2 ^ j ∣ addr.value → j ≤ ipListParseBits addr := by
    intro hdvd
    have hle := Nat.le_of_dvd (Nat.pos_of_ne_zero hne) hdvd
    exact Nat.le_of_lt ((Nat.pow_lt_pow_iff_right (by decide)).1 (Nat.lt_of_le_of_lt hle (value_lt h)))
  rw [coverAlign, Nat.le_min]
  constructor
  · intro hdvd
    refine ⟨?_, hfits hdvd⟩
    by_cases hlo : addr.lo = 0
    · have hhi : addr.hi ≠ 0 := by
        intro hzero
        rw [IpListParseAddr.value, hlo, hzero] at hne
        exact hne rfl
      rw [if_neg (not_not.2 hlo), if_pos hhi]
      rcases Nat.le_total j 64 with hshort | hlong
      · exact Nat.le_trans hshort (Nat.le_add_right 64 _)
      · obtain ⟨i, rfl⟩ := Nat.exists_eq_add_of_le hlong
        have hdvd' := ((dvd_words_long hwords.2).1 hdvd).2
        exact Nat.add_le_add_left ((countrZero_spec hwords.1 hhi i).1 hdvd') 64
    · rw [if_pos hlo]
      rcases Nat.le_total j 64 with hshort | hlong
      · exact (countrZero_spec hwords.2 hlo j).1 ((dvd_words hshort).1 hdvd)
      · obtain ⟨i, rfl⟩ := Nat.exists_eq_add_of_le hlong
        exact absurd ((dvd_words_long hwords.2).1 hdvd).1 hlo
  · rintro ⟨hle, -⟩
    by_cases hlo : addr.lo = 0
    · have hhi : addr.hi ≠ 0 := by
        intro hzero
        rw [IpListParseAddr.value, hlo, hzero] at hne
        exact hne rfl
      rw [if_neg (not_not.2 hlo), if_pos hhi] at hle
      rcases Nat.le_total j 64 with hshort | hlong
      · rw [IpListParseAddr.value, dvd_words hshort, hlo]
        exact Nat.dvd_zero _
      · obtain ⟨i, rfl⟩ := Nat.exists_eq_add_of_le hlong
        have hi : i ≤ countrZero 64 addr.hi := by omega
        exact (dvd_words_long hwords.2).2 ⟨hlo, (countrZero_spec hwords.1 hhi i).2 hi⟩
    · rw [if_pos hlo] at hle
      have hdvd := (countrZero_spec hwords.2 hlo j).2 hle
      have hshort : j ≤ 64 := by
        have hsize := Nat.le_of_dvd (Nat.pos_of_ne_zero hlo) hdvd
        exact Nat.le_of_lt ((Nat.pow_lt_pow_iff_right (by decide)).1 (Nat.lt_of_le_of_lt hsize hwords.2))
      exact (dvd_words hshort).2 hdvd

/-- At zero a block may be as long as it fits. -/
theorem align_zero (h : addr.value = 0) : coverAlign addr = ipListParseBits addr := by
  have hlo : addr.lo = 0 := by
    unfold IpListParseAddr.value at h
    omega
  have hhi : addr.hi = 0 := by
    unfold IpListParseAddr.value at h
    omega
  rw [coverAlign, if_neg (not_not.2 hlo), if_neg (not_not.2 hhi)]
  unfold ipListParseBits
  split <;> rfl

section

variable (ha : first.Valid) (hb : last.Valid) (hle : first.value ≤ last.value)

include ha hb hle

/-- The two words of the number of addresses. -/
theorem size_words (hsize : last.value - first.value + 1 < 2 ^ 128) : last.value - first.value + 1 =
    add64 (sub64 (sub64 last.hi first.hi) (if last.lo < first.lo then 1 else 0))
    (if add64 (sub64 last.lo first.lo) 1 = 0 then 1 else 0) * 2 ^ 64 + add64 (sub64 last.lo first.lo) 1 := by
  have hfirst := valid_words ha
  have hlast := valid_words hb
  unfold IpListParseAddr.value at hle hsize ⊢
  unfold add64 sub64
  split <;> split <;> omega

/-- The number of addresses of a range, if it is not the whole space. -/
theorem le_fit_iff (hsize : last.value - first.value + 1 < 2 ^ 128) (j : Nat) : 2 ^ j ≤ last.value - first.value + 1 ↔ j ≤ coverFit first last := by
  obtain ⟨sizeHi, hhi⟩ : ∃ n, n = add64 (sub64 (sub64 last.hi first.hi) (if last.lo < first.lo then 1 else 0))
      (if add64 (sub64 last.lo first.lo) 1 = 0 then 1 else 0) := ⟨_, rfl⟩
  obtain ⟨sizeLo, hlo⟩ : ∃ n, n = add64 (sub64 last.lo first.lo) 1 := ⟨_, rfl⟩
  have hfit : coverFit first last = if sizeHi ≠ 0 then 64 + bitWidth sizeHi - 1 else bitWidth sizeLo - 1 := by
    rw [hhi, hlo]
    rfl
  have hbounds : sizeHi < 2 ^ 64 ∧ sizeLo < 2 ^ 64 := by
    rw [hhi, hlo]
    exact ⟨Nat.mod_lt _ (by decide), Nat.mod_lt _ (by decide)⟩
  have hwords : last.value - first.value + 1 = sizeHi * 2 ^ 64 + sizeLo := by
    rw [hhi, hlo]
    exact size_words ha hb hle hsize
  rw [hfit, hwords]
  by_cases hzero : sizeHi = 0
  · have hne : sizeLo ≠ 0 := by omega
    rw [if_neg (not_not.2 hzero), hzero, Nat.zero_mul, Nat.zero_add]
    exact le_log2_iff hne
  · rw [if_pos hzero]
    have hpos : 0 < bitWidth sizeHi := by
      rw [bitWidth, if_neg hzero]
      exact Nat.succ_pos _
    rcases Nat.le_total j 64 with hshort | hlong
    · have hpow : 2 ^ j ≤ 2 ^ 64 := Nat.pow_le_pow_right (by decide) hshort
      have hword : 2 ^ 64 ≤ sizeHi * 2 ^ 64 := Nat.le_mul_of_pos_left _ (Nat.pos_of_ne_zero hzero)
      constructor
      all_goals
        intro _
        omega
    · obtain ⟨i, rfl⟩ := Nat.exists_eq_add_of_le hlong
      have hlong' : 2 ^ (64 + i) ≤ sizeHi * 2 ^ 64 + sizeLo ↔ 2 ^ i ≤ sizeHi := by
        rw [Nat.pow_add, Nat.mul_comm (2 ^ 64)]
        constructor
        · intro h
          by_contra hlt
          have hscaled := Nat.mul_le_mul_right (2 ^ 64) (Nat.succ_le_of_lt (Nat.not_le.1 hlt))
          rw [Nat.succ_mul] at hscaled
          omega
        · intro h
          exact Nat.le_trans (Nat.mul_le_mul_right (2 ^ 64) h) (Nat.le_add_right _ _)
      rw [hlong', le_log2_iff hzero]
      omega

/-- The greatest aligned block that fits is what the two words give. -/
theorem fits_block (hsize : last.value - first.value + 1 < 2 ^ ipListParseBits first) :
    Fits first.value last.value ⟨first.value, min (coverAlign first) (coverFit first last)⟩ := by
  have hsize' : last.value - first.value + 1 < 2 ^ 128 := by
    apply Nat.lt_of_lt_of_le hsize
    apply Nat.pow_le_pow_right (by decide)
    unfold ipListParseBits
    split <;> decide
  have hfit := le_fit_iff ha hb hle hsize'
  have hwidth := (hfit (min (coverAlign first) (coverFit first last))).2 (Nat.min_le_right _ _)
  refine ⟨rfl, ?_, ?_, ?_⟩
  · show 2 ^ _ ∣ first.value
    by_cases hzero : first.value = 0
    · rw [hzero]
      exact Nat.dvd_zero _
    · exact (dvd_iff_le_align ha hzero _).2 (Nat.min_le_left _ _)
  · have hends : first.value + 2 ^ min (coverAlign first) (coverFit first last) ≤ last.value + 1 := by omega
    exact hends
  · intro c hstart haligned hstop
    have hlength : 2 ^ c.width ≤ last.value - first.value + 1 := by
      have hends : c.start + 2 ^ c.width ≤ last.value + 1 := hstop
      omega
    have hfits := (hfit c.width).1 hlength
    apply Nat.le_min.2 ⟨?_, hfits⟩
    by_cases hzero : first.value = 0
    · rw [align_zero hzero]
      exact Nat.le_of_lt ((Nat.pow_lt_pow_iff_right (by decide)).1 (Nat.lt_of_le_of_lt hlength hsize))
    · apply (dvd_iff_le_align ha hzero _).1
      rw [← hstart]
      exact haligned

end

/-- Behind an aligned number there is room for its block. -/
theorem aligned_room (hk : k ≤ 64) (hdvd : 2 ^ k ∣ n) (hlt : n < 2 ^ 64) : n + 2 ^ k ≤ 2 ^ 64 := by
  obtain ⟨m, rfl⟩ := hdvd
  have hword : (2 : Nat) ^ 64 = 2 ^ k * 2 ^ (64 - k) := by rw [← Nat.pow_add, Nat.add_sub_cancel' hk]
  rw [hword] at hlt ⊢
  rw [← Nat.mul_succ]
  exact Nat.mul_le_mul_left _ (Nat.lt_of_mul_lt_mul_left hlt)

/-- The last address of a block. -/
theorem blockEnd_eq (ha : first.Valid) (hdvd : 2 ^ k ∣ first.value) : blockEnd first k = ofValue first.v6 (first.value + (2 ^ k - 1)) := by
  have hwords := valid_words ha
  obtain ⟨v6, hi, lo⟩ := first
  simp only [IpListParseAddr.value] at hwords hdvd ⊢
  rcases Nat.lt_or_ge k 64 with hshort | hlong
  · have hlow : 2 ^ k ∣ lo := (dvd_words (Nat.le_of_lt hshort)).1 hdvd
    have hroom := aligned_room (Nat.le_of_lt hshort) hlow hwords.2
    have hpos := Nat.two_pow_pos k
    rw [blockEnd, if_neg (Nat.not_le.2 hshort), ofValue]
    split
    · rw [or_ones hlow]
      simp only [IpListParseAddr.mk.injEq, true_and]
      omega
    · next hk =>
      have hzero : k = 0 := by omega
      rw [hzero]
      simp only [IpListParseAddr.mk.injEq, true_and]
      omega
  · obtain ⟨i, rfl⟩ := Nat.exists_eq_add_of_le hlong
    obtain ⟨hlo, hhigh⟩ := (dvd_words_long hwords.2).1 hdvd
    have hpow : (2 : Nat) ^ (64 + i) = 2 ^ i * 2 ^ 64 := by rw [Nat.pow_add, Nat.mul_comm]
    have hpos := Nat.two_pow_pos i
    -- the low word is all ones, the high one has the ones that are left
    have hhi : (if 64 < 64 + i then hi ||| (2 ^ (64 + i - 64) - 1) else hi) = hi + (2 ^ i - 1) := by
      split
      · rw [Nat.add_sub_cancel_left, or_ones hhigh]
      · next hi' =>
        have hzero : i = 0 := by omega
        rw [hzero]
        rfl
    rw [blockEnd, if_pos (Nat.le_add_right 64 i), ofValue, hhi, hlo, hpow]
    simp only [IpListParseAddr.mk.injEq, true_and]
    omega

theorem afterBlock_ofValue (v6 : Bool) (h : n + 1 < 2 ^ 128) : afterBlock (ofValue v6 n) = ofValue v6 (n + 1) := by
  have hlo : add64 (n % 2 ^ 64) 1 = (n + 1) % 2 ^ 64 := by
    unfold add64
    omega
  have hhi : add64 (n / 2 ^ 64) (if add64 (n % 2 ^ 64) 1 = 0 then 1 else 0) = (n + 1) / 2 ^ 64 := by
    rw [hlo]
    unfold add64
    split <;> omega
  show IpListParseAddr.mk v6 (add64 (n / 2 ^ 64) (if add64 (n % 2 ^ 64) 1 = 0 then 1 else 0))
    (add64 (n % 2 ^ 64) 1) = _
  rw [hhi, hlo]
  rfl

end Values

/-! ## The loop -/

/-- The address and the number of bits of a block. -/
def blockOf (v6 : Bool) (b : Block) : IpListParseAddr × Nat :=
  (ofValue v6 b.start, (if v6 then 128 else 32) - b.width)

/-- **The loop splits the range into the greatest aligned blocks.** -/
theorem coverLoop_cover {last : IpListParseAddr} (hb : last.Valid) (fuel : Nat) (first : IpListParseAddr)
    (ha : first.Valid) (hfamily : last.v6 = first.v6) (hle : first.value ≤ last.value)
    (hsize : last.value - first.value + 1 < 2 ^ ipListParseBits first) (hfuel : last.value - first.value < fuel) :
    ∃ bs, Cover last.value first.value bs ∧ coverLoop fuel first last = bs.map (blockOf first.v6) := by
  induction fuel generalizing first with
  | zero => exact absurd hfuel (Nat.not_lt_zero _)
  | succ fuel ih =>
    have hfits := fits_block ha hb hle hsize
    obtain ⟨k, hk⟩ : ∃ k, k = min (coverAlign first) (coverFit first last) := ⟨_, rfl⟩
    rw [← hk] at hfits
    have hpos := Nat.two_pow_pos k
    have hstop : first.value + 2 ^ k ≤ last.value + 1 := hfits.fits
    have hbits := value_lt hb
    have hspace : (2 : Nat) ^ ipListParseBits last ≤ 2 ^ 128 := by
      apply Nat.pow_le_pow_right (by decide)
      unfold ipListParseBits
      split <;> decide
    have hend := blockEnd_eq ha hfits.aligned
    have hblock : (first, ipListParseBits first - k) = blockOf first.v6 ⟨first.value, k⟩ := by
      rw [blockOf, ofValue_value ha]
      rfl
    rw [coverLoop]
    simp only [← hk, hend]
    by_cases hdone : first.value + (2 ^ k - 1) = last.value
    · -- the block ends the range
      have hlast := ofValue_value hb
      rw [hfamily, ← hdone] at hlast
      rw [if_pos ⟨congrArg IpListParseAddr.hi hlast, congrArg IpListParseAddr.lo hlast⟩, hblock]
      refine ⟨[⟨first.value, k⟩], .done hfits ?_, rfl⟩
      show first.value + 2 ^ k = last.value + 1
      omega
    · have hmore : ¬((ofValue first.v6 (first.value + (2 ^ k - 1))).hi = last.hi ∧ (ofValue first.v6 (first.value + (2 ^ k - 1))).lo = last.lo) := by
        rintro ⟨hhi, hlo⟩
        apply hdone
        rw [← value_ofValue first.v6 (first.value + (2 ^ k - 1)), IpListParseAddr.value, hhi, hlo]
        rfl
      have hnext := afterBlock_ofValue first.v6 (n := first.value + (2 ^ k - 1)) (by omega)
      have hvalue : first.value + (2 ^ k - 1) + 1 = first.value + 2 ^ k := by omega
      rw [hvalue] at hnext
      rw [if_neg hmore, hnext, hblock]
      have hrest : (ofValue first.v6 (first.value + 2 ^ k)).value = first.value + 2 ^ k := value_ofValue _ _
      have hvalid : (ofValue first.v6 (first.value + 2 ^ k)).Valid := by
        apply ofValue_valid
        rw [← hfamily]
        show _ < 2 ^ ipListParseBits last
        omega
      have hin : first.value + 2 ^ k ≤ last.value := by omega
      have hsize' : last.value - (first.value + 2 ^ k) + 1 < 2 ^ ipListParseBits first := by omega
      have hfuel' : last.value - (first.value + 2 ^ k) < fuel := by omega
      have hv6 := ofValue_v6 first.v6 (first.value + 2 ^ k)
      have hbits' : ipListParseBits (ofValue first.v6 (first.value + 2 ^ k)) = ipListParseBits first := by
        rw [ipListParseBits, hv6, ipListParseBits]
      have hrun := ih (ofValue first.v6 (first.value + 2 ^ k)) hvalid (hfamily.trans hv6.symm)
      rw [hrest, hbits', hv6] at hrun
      obtain ⟨bs, hcover, hloop⟩ := hrun hin hsize' hfuel'
      refine ⟨⟨first.value, k⟩ :: bs, .more hfits hin hcover, ?_⟩
      rw [hloop, List.map_cons]

/-- The whole address space of a family. -/
def WholeSpace (first last : IpListParseAddr) : Prop := first.value = 0 ∧ last.value = 2 ^ ipListParseBits first - 1

section Range

variable {first last : IpListParseAddr}

theorem bits_eq (hfamily : last.v6 = first.v6) : ipListParseBits last = ipListParseBits first := by
  rw [ipListParseBits, ipListParseBits, hfamily]

theorem size_lt (hb : last.Valid) (hfamily : last.v6 = first.v6) (hle : first.value ≤ last.value)
    (hpart : ¬WholeSpace first last) : last.value - first.value + 1 < 2 ^ ipListParseBits first := by
  have hlast := value_lt hb
  rw [bits_eq hfamily] at hlast
  rw [WholeSpace] at hpart
  omega

/-- The test for the whole space, on the words. -/
theorem whole_words (h : first.hi = 0 ∧ first.lo = 0 ∧ last.hi = (if first.v6 then 2 ^ 64 - 1 else 0) ∧
    last.lo = if first.v6 then 2 ^ 64 - 1 else 2 ^ 32 - 1) : WholeSpace first last := by
  obtain ⟨hhi, hlo, hlastHi, hlastLo⟩ := h
  rw [WholeSpace, IpListParseAddr.value, IpListParseAddr.value, hhi, hlo, hlastHi, hlastLo, ipListParseBits]
  split <;> decide

/-- A range that is not the whole space is split. -/
theorem coverRange_blocks (ha : first.Valid) (hb : last.Valid) (hfamily : last.v6 = first.v6)
    (hle : first.value ≤ last.value) (hpart : ¬WholeSpace first last) : ∃ bs, Cover last.value first.value bs ∧
    coverLoop (last.value - first.value + 1) first last = bs.map (blockOf first.v6) ∧ ipListParseCoverRange first last =
    some (bs.map fun b => ipListParseCidr (blockOf first.v6 b).1 (blockOf first.v6 b).2) := by
  obtain ⟨bs, hcover, hloop⟩ := coverLoop_cover hb (last.value - first.value + 1) first ha hfamily hle
    (size_lt hb hfamily hle hpart) (Nat.lt_succ_self _)
  refine ⟨bs, hcover, hloop, ?_⟩
  simp only [ipListParseCoverRange]
  rw [if_neg fun h => hpart (whole_words h), hloop, List.map_map]
  rfl

end Range

end Throne.Scanner.IpListParse
