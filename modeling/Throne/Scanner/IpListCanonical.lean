import Throne.Scanner.IpListCover

/-!
# Canonical networks

The networks that `NormalizeCidr` leaves as they are (`Canonical`). What is read of a single network is one of
them, and so are the blocks of a range, up to one: a range that begins inside the upper half of
`::fffe:0:0/95`, or rather behind its first address and before the mapped IPv4 addresses, and that ends behind
those, has all of `::ffff:0:0/96` as a block of its own. The reader refuses that network.
-/

namespace Throne.Scanner.IpListParse

open Lib.Texts Lib.Dyadic Database.Routes List

/-! ## What the readers give -/

theorem octet_lt {part : Text} {octet : Nat} (h : ipListParseOctet part = some octet) : octet < 256 := by
  unfold ipListParseOctet at h
  split at h
  · split at h
    · cases h
    · next hle =>
      split at h
      · cases h
      · rw [← Option.some.inj h]
        omega
  · cases h

variable {text : Text}

theorem v4_lt {value : Nat} (h : ipListParseV4 text = some value) : value < 2 ^ 32 := by
  unfold ipListParseV4 at h
  split at h
  · next a b c d hparts =>
    have hall : ∀ octet ∈ [some a, some b, some c, some d], ∀ o ∈ octet, o < 256 := by
      intro octet hmem o ho
      rw [← hparts] at hmem
      obtain ⟨part, -, hpart⟩ := mem_map.1 hmem
      rw [Option.mem_def] at ho
      exact octet_lt (hpart.trans ho)
    have ha := hall (some a) (by simp) a rfl
    have hb := hall (some b) (by simp) b rfl
    have hc := hall (some c) (by simp) c rfl
    have hd := hall (some d) (by simp) d rfl
    rw [← Option.some.inj h, shiftLeft_or _ (show b < 2 ^ 8 from hb), shiftLeft_or _ (show c < 2 ^ 8 from hc),
      shiftLeft_or _ (show d < 2 ^ 8 from hd)]
    omega
  · cases h

theorem hexDigit_lt {c : Char} {digit : Nat} (h : ipListParseHexDigit c = some digit) : digit < 16 := by
  have hval {a b : Char} (hc : a ≤ c ∧ c ≤ b) : a.toNat ≤ c.toNat ∧ c.toNat ≤ b.toNat := hc
  unfold ipListParseHexDigit at h
  split at h
  · next hc =>
    have hbounds : 48 ≤ c.toNat ∧ c.toNat ≤ 57 := hval hc
    rw [← Option.some.inj h]
    show c.toNat - 48 < 16
    omega
  · split at h
    · next hc =>
      have hbounds : 97 ≤ c.toNat ∧ c.toNat ≤ 102 := hval hc
      rw [← Option.some.inj h]
      show c.toNat - 97 + 10 < 16
      omega
    · split at h
      · next hc =>
        have hbounds : 65 ≤ c.toNat ∧ c.toNat ≤ 70 := hval hc
        rw [← Option.some.inj h]
        show c.toNat - 65 + 10 < 16
        omega
      · cases h

theorem hexValue_lt {group : Text} {start value : Nat}
    (h : group.foldlM (fun value c => (ipListParseHexDigit c).map fun digit => (value <<< 4) ||| digit) start =
    some value) : value < (start + 1) * 16 ^ group.length := by
  induction group generalizing start with
  | nil =>
    rw [foldlM_nil] at h
    rw [← Option.some.inj h]
    simp
  | cons c rest ih =>
    rw [foldlM_cons] at h
    cases hdigit : ipListParseHexDigit c with
    | none =>
      rw [hdigit] at h
      cases h
    | some digit =>
      rw [hdigit] at h
      have hlt := hexDigit_lt hdigit
      have hrest : value < ((start <<< 4 ||| digit) + 1) * 16 ^ rest.length := ih h
      rw [shiftLeft_or _ (show digit < 2 ^ 4 from hlt)] at hrest
      have hstep : start * 2 ^ 4 + digit + 1 ≤ (start + 1) * 16 := by omega
      rw [length_cons, Nat.pow_succ']
      calc value < (start * 2 ^ 4 + digit + 1) * 16 ^ rest.length := hrest
        _ ≤ (start + 1) * 16 * 16 ^ rest.length := Nat.mul_le_mul_right _ hstep
        _ = (start + 1) * (16 * 16 ^ rest.length) := Nat.mul_assoc _ _ _

variable {groups : List Nat}

theorem groups_lt {allowV4Tail : Bool} {count : Nat} {texts : List Text}
    (h : ipListParseGroups allowV4Tail count texts = some groups) : ∀ g ∈ groups, g < 65536 := by
  induction texts generalizing count groups with
  | nil =>
    rw [← Option.some.inj h]
    exact nofun
  | cons text rest ih =>
    rw [ipListParseGroups] at h
    split at h
    · split at h
      · cases h
      · obtain ⟨v4, hv4, rfl⟩ := Option.map_eq_some_iff.1 h
        have hlt := v4_lt hv4
        intro g hg
        rw [mem_cons, mem_singleton] at hg
        rcases hg with rfl | rfl
        · rw [Nat.shiftRight_eq_div_pow]
          omega
        · rw [show (0xffff : Nat) = 2 ^ 16 - 1 from rfl, and_ones]
          exact Nat.mod_lt _ (by decide)
    · split at h
      · cases h
      · next hfits =>
        split at h
        · next value values hvalue hvalues =>
          rw [← Option.some.inj h]
          intro g hg
          rcases mem_cons.1 hg with rfl | hg
          · have hlt := hexValue_lt hvalue
            have hlength : text.length ≤ 4 := by
              by_contra hlong
              exact hfits (.inr (.inl (Nat.not_le.1 hlong)))
            have hpow : (16 : Nat) ^ text.length ≤ 16 ^ 4 := Nat.pow_le_pow_right (by decide) hlength
            omega
          · exact ih hvalues g hg
        · cases h

theorem part_lt {allowV4Tail : Bool} (h : ipListParseV6Part text allowV4Tail = some groups) : ∀ g ∈ groups, g < 65536 := by
  unfold ipListParseV6Part at h
  split at h
  · rw [← Option.some.inj h]
    exact nofun
  · exact groups_lt h

theorem v6Groups_facts (h : ipListParseV6Groups text = some groups) : groups.length = 8 ∧ ∀ g ∈ groups, g < 65536 := by
  unfold ipListParseV6Groups at h
  split at h
  · split at h
    · next head hhead =>
      split at h
      · next hlength =>
        rw [← Option.some.inj h]
        exact ⟨hlength, part_lt hhead⟩
      · cases h
    · cases h
  · split at h
    · cases h
    · split at h
      · next head tail hhead htail =>
        split at h
        · cases h
        · rw [← Option.some.inj h]
          refine ⟨?_, ?_⟩
          · rw [length_append, length_append, length_replicate]
            omega
          · intro g hg
            rcases mem_append.1 hg with hfront | hg
            · rcases mem_append.1 hfront with hg | hg
              · exact part_lt hhead g hg
              · rw [eq_of_mem_replicate hg]
                decide
            · exact part_lt htail g hg
      · cases h

theorem wordOf_lt (h : ∀ g ∈ groups, g < 65536) (word : Nat) :
    groups.foldl (fun word group => word <<< 16 ||| group) word < (word + 1) * 65536 ^ groups.length := by
  induction groups generalizing word with
  | nil => simp
  | cons group rest ih =>
    have hgroup : group < 2 ^ 16 := h group mem_cons_self
    have hrest := ih (fun g hg => h g (mem_cons_of_mem group hg)) (word <<< 16 ||| group)
    rw [foldl_cons, length_cons, Nat.pow_succ']
    have hstep : (word <<< 16 ||| group) + 1 ≤ (word + 1) * 65536 := by
      rw [shiftLeft_or _ hgroup]
      omega
    calc _ < ((word <<< 16 ||| group) + 1) * 65536 ^ rest.length := hrest
      _ ≤ (word + 1) * 65536 * 65536 ^ rest.length := Nat.mul_le_mul_right _ hstep
      _ = (word + 1) * (65536 * 65536 ^ rest.length) := Nat.mul_assoc _ _ _

variable {addr : IpListParseAddr}

theorem address_valid (h : ipListParseAddress text = some addr) : addr.Valid := by
  unfold ipListParseAddress at h
  split at h
  · obtain ⟨words, hwords, rfl⟩ := Option.map_eq_some_iff.1 h
    obtain ⟨groups, hgroups, rfl⟩ := Option.map_eq_some_iff.1 hwords
    obtain ⟨hlength, hlt⟩ := v6Groups_facts hgroups
    have hfrontLt : ∀ g ∈ groups.take 4, g < 65536 := fun g hg => hlt g (mem_of_mem_take hg)
    have hbackLt : ∀ g ∈ groups.drop 4, g < 65536 := fun g hg => hlt g (mem_of_mem_drop hg)
    have hfront := wordOf_lt hfrontLt 0
    have hback := wordOf_lt hbackLt 0
    rw [length_take, hlength] at hfront
    rw [length_drop, hlength] at hback
    exact ⟨hfront, hback⟩
  · obtain ⟨v4, hv4, rfl⟩ := Option.map_eq_some_iff.1 h
    exact ⟨rfl, v4_lt hv4⟩

/-! ## Masking -/

/-- A network as the reader leaves it. -/
structure Canonical (addr : IpListParseAddr) (bits : Nat) : Prop where
  valid : addr.Valid
  bits_pos : 0 < bits
  bits_le : bits ≤ ipListParseBits addr
  aligned : 2 ^ (ipListParseBits addr - bits) ∣ addr.value
  unmapped : ¬(ipListParseIsMapped addr = true ∧ 96 ≤ bits)

theorem isMapped_iff (h : addr.Valid) : ipListParseIsMapped addr = true ↔ addr.v6 = true ∧ addr.value / 2 ^ 32 = 0xffff := by
  have hwords := valid_words h
  rw [ipListParseIsMapped, Bool.and_eq_true, Bool.and_eq_true, decide_eq_true_eq, decide_eq_true_eq,
    Nat.shiftRight_eq_div_pow, and_assoc, IpListParseAddr.value]
  refine and_congr_right fun _ => ?_
  constructor
  · rintro ⟨hhi, hlo⟩
    rw [hhi]
    omega
  · intro hvalue
    omega

theorem keepHigh_eq (width keep word : Nat) : keepHigh width keep word = word / 2 ^ (width - keep) * 2 ^ (width - keep) := by
  rw [keepHigh, Nat.shiftRight_eq_div_pow, Nat.shiftLeft_eq]

variable {bits : Nat}

/-- Masking keeps the leading bits and clears the others. -/
theorem mask_value (h : addr.Valid) (hpos : 0 < bits) (hbits : bits ≤ ipListParseBits addr) :
    (ipListParseMask addr bits).v6 = addr.v6 ∧ (ipListParseMask addr bits).Valid ∧ (ipListParseMask addr bits).value =
    addr.value / 2 ^ (ipListParseBits addr - bits) * 2 ^ (ipListParseBits addr - bits) := by
  have hword (k n : Nat) : n / 2 ^ k * 2 ^ k ≤ n := Nat.div_mul_le_self n _
  obtain ⟨v6, hi, lo⟩ := addr
  cases v6 with
  | false =>
    obtain ⟨hhi, hlo⟩ : hi = 0 ∧ lo < 2 ^ 32 := h
    subst hhi
    refine ⟨rfl, ⟨rfl, ?_⟩, ?_⟩
    · show keepHigh 32 bits lo < 2 ^ 32
      rw [keepHigh_eq]
      exact Nat.lt_of_le_of_lt (hword _ lo) hlo
    · show 0 * 2 ^ 64 + keepHigh 32 bits lo = (0 * 2 ^ 64 + lo) / 2 ^ (32 - bits) * 2 ^ (32 - bits)
      rw [keepHigh_eq, Nat.zero_mul, Nat.zero_add, Nat.zero_add]
  | true =>
    obtain ⟨hhi, hlo⟩ : hi < 2 ^ 64 ∧ lo < 2 ^ 64 := h
    have hle : bits ≤ 128 := hbits
    show (ipListParseMask ⟨true, hi, lo⟩ bits).v6 = true ∧ _ ∧ (ipListParseMask ⟨true, hi, lo⟩ bits).value =
      (hi * 2 ^ 64 + lo) / 2 ^ (128 - bits) * 2 ^ (128 - bits)
    unfold ipListParseMask
    simp only [Bool.not_true, Bool.false_eq_true, if_false]
    rcases Nat.lt_trichotomy bits 64 with hshort | rfl | hlong
    · -- only bits of the high word are kept
      have hpow : (2 : Nat) ^ (128 - bits) = 2 ^ 64 * 2 ^ (64 - bits) := by
        rw [← Nat.pow_add]
        congr 1
        omega
      have hdiv : (hi * 2 ^ 64 + lo) / 2 ^ (128 - bits) = hi / 2 ^ (64 - bits) := by
        rw [hpow, ← Nat.div_div_eq_div_mul]
        congr 1
        omega
      rw [if_pos hshort]
      refine ⟨rfl, ⟨?_, Nat.two_pow_pos 64⟩, ?_⟩
      · show keepHigh 64 bits hi < 2 ^ 64
        rw [keepHigh_eq]
        exact Nat.lt_of_le_of_lt (hword _ hi) hhi
      · show keepHigh 64 bits hi * 2 ^ 64 + 0 = _
        rw [keepHigh_eq, hdiv, hpow, Nat.add_zero, Nat.mul_assoc, Nat.mul_comm (2 ^ (64 - bits))]
    · rw [if_neg (Nat.lt_irrefl 64), if_pos rfl]
      refine ⟨rfl, ⟨hhi, Nat.two_pow_pos 64⟩, ?_⟩
      show hi * 2 ^ 64 + 0 = (hi * 2 ^ 64 + lo) / 2 ^ 64 * 2 ^ 64
      omega
    · rw [if_neg (Nat.not_lt.2 (Nat.le_of_lt hlong)), if_neg (Nat.ne_of_gt hlong)]
      have hpow : (2 : Nat) ^ 64 = 2 ^ (bits - 64) * 2 ^ (128 - bits) := by
        rw [← Nat.pow_add]
        congr 1
        omega
      -- the high word is a multiple of what is cleared
      have hvalue : (hi * 2 ^ 64 + lo) / 2 ^ (128 - bits) * 2 ^ (128 - bits) = hi * 2 ^ 64 + lo / 2 ^ (128 - bits) * 2 ^ (128 - bits) := by
        rw [hpow, ← Nat.mul_assoc, Nat.add_comm, Nat.add_mul_div_right _ _ (Nat.two_pow_pos _), Nat.add_mul, Nat.add_comm]
      by_cases hfull : bits < 128
      · rw [if_pos hfull]
        refine ⟨rfl, ⟨hhi, ?_⟩, ?_⟩
        · show keepHigh 128 bits lo < 2 ^ 64
          rw [keepHigh_eq]
          exact Nat.lt_of_le_of_lt (hword _ lo) hlo
        · show hi * 2 ^ 64 + keepHigh 128 bits lo = _
          rw [hvalue, keepHigh_eq]
      · have hall : 128 - bits = 0 := by omega
        rw [if_neg hfull]
        refine ⟨rfl, ⟨hhi, hlo⟩, ?_⟩
        rw [hall, Nat.pow_zero, Nat.div_one, Nat.mul_one]
        rfl

/-- Masking leaves a network with nothing behind its bits as it is. -/
theorem mask_aligned (h : addr.Valid) (hpos : 0 < bits) (hbits : bits ≤ ipListParseBits addr)
    (hdvd : 2 ^ (ipListParseBits addr - bits) ∣ addr.value) : ipListParseMask addr bits = addr := by
  obtain ⟨hfamily, hvalid, hvalue⟩ := mask_value h hpos hbits
  rw [Nat.div_mul_cancel hdvd] at hvalue
  exact value_inj hvalid h hfamily hvalue

theorem unmap_self (h : ¬(ipListParseIsMapped addr = true ∧ 96 ≤ bits)) : unmapNetwork addr bits = (addr, bits) := if_neg h

theorem finish_canonical (h : Canonical addr bits) : ipListParseNetwork.finish addr bits = some (addr, bits) := by
  unfold ipListParseNetwork.finish
  simp only [unmap_self h.unmapped]
  rw [if_neg (Nat.ne_of_gt h.bits_pos), mask_aligned h.valid h.bits_pos h.bits_le h.aligned]

/-- **A canonical network is read as itself**, and `NormalizeCidr` leaves its text as it is. -/
theorem normalize_canonical (h : Canonical addr bits) : ipListParseNetwork (ipListParseCidr addr bits) = some (addr, bits) ∧
    NormalizeCidr (ipListParseCidr addr bits) = ipListParseCidr addr bits := by
  have hread : ipListParseNetwork (ipListParseCidr addr bits) = some (addr, bits) := by
    rw [network_cidr h.valid h.bits_le, finish_canonical h]
  refine ⟨hread, ?_⟩
  rw [NormalizeCidr, hread]

/-- What is masked is canonical. -/
theorem canonical_mask (h : addr.Valid) (hpos : 0 < bits) (hbits : bits ≤ ipListParseBits addr)
    (hmapped : ¬(ipListParseIsMapped addr = true ∧ 96 ≤ bits)) : Canonical (ipListParseMask addr bits) bits := by
  obtain ⟨hfamily, hvalid, hvalue⟩ := mask_value h hpos hbits
  have hsame : ipListParseBits (ipListParseMask addr bits) = ipListParseBits addr := by
    rw [ipListParseBits, ipListParseBits, hfamily]
  refine ⟨hvalid, hpos, by rw [hsame]; exact hbits, ?_, ?_⟩
  · rw [hsame, hvalue]
    exact Nat.dvd_mul_left _ _
  · rintro ⟨hmap, hlong⟩
    rw [isMapped_iff hvalid, hfamily, hvalue] at hmap
    -- the first 96 bits are kept
    apply hmapped
    refine ⟨?_, hlong⟩
    rw [isMapped_iff h]
    refine ⟨hmap.1, ?_⟩
    have h128 : ipListParseBits addr = 128 := by rw [ipListParseBits, if_pos hmap.1]
    have hpow : (2 : Nat) ^ 32 = 2 ^ (128 - bits) * 2 ^ (bits - 96) := by
      rw [← Nat.pow_add]
      congr 1
      omega
    have hdiv := hmap.2
    rw [h128, hpow, ← Nat.div_div_eq_div_mul, Nat.mul_div_cancel _ (Nat.two_pow_pos _)] at hdiv
    rw [hpow, ← Nat.div_div_eq_div_mul]
    exact hdiv

theorem network_canonical (h : ipListParseNetwork text = some (addr, bits)) : Canonical addr bits := by
  have hfinish {a : IpListParseAddr} {n : Nat} (ha : a.Valid) (hn : n ≤ ipListParseBits a)
      (hf : ipListParseNetwork.finish a n = some (addr, bits)) : Canonical addr bits := by
    unfold ipListParseNetwork.finish at hf
    by_cases hmapped : ipListParseIsMapped a = true ∧ 96 ≤ n
    · have hunmap : unmapNetwork a n = (⟨false, 0, a.lo &&& 0xffffffff⟩, n - 96) := if_pos hmapped
      rw [hunmap] at hf
      simp only at hf
      split at hf
      · cases hf
      · next hpos =>
        obtain ⟨rfl, rfl⟩ := Prod.mk.inj (Option.some.inj hf)
        have hsmall : n ≤ 128 := by
          apply Nat.le_trans hn
          unfold ipListParseBits
          split <;> decide
        apply canonical_mask
        · refine ⟨rfl, ?_⟩
          show a.lo &&& 2 ^ 32 - 1 < 2 ^ 32
          rw [and_ones]
          exact Nat.mod_lt _ (by decide)
        · exact Nat.pos_of_ne_zero hpos
        · show n - 96 ≤ 32
          omega
        · rintro ⟨hm, -⟩
          exact absurd hm (by simp [ipListParseIsMapped])
    · rw [unmap_self hmapped] at hf
      simp only at hf
      split at hf
      · cases hf
      · next hpos =>
        obtain ⟨rfl, rfl⟩ := Prod.mk.inj (Option.some.inj hf)
        exact canonical_mask ha (Nat.pos_of_ne_zero hpos) hn hmapped
  unfold ipListParseNetwork at h
  split at h
  · cases h
  · split at h
    · cases h
    · next a haddr =>
      have hvalid := address_valid haddr
      split at h
      · exact hfinish hvalid (Nat.le_refl _) h
      · split at h
        · cases h
        · split at h
          · cases h
          · next hle => exact hfinish hvalid (Nat.not_lt.1 hle) h

/-- What `NormalizeCidr` does not refuse is written as a canonical network. -/
theorem normalize_spec (h : NormalizeCidr text ≠ []) : ∃ addr bits, Canonical addr bits ∧ NormalizeCidr text = ipListParseCidr addr bits := by
  unfold NormalizeCidr at h ⊢
  cases hread : ipListParseNetwork text with
  | none =>
    rw [hread] at h
    exact absurd rfl h
  | some parsed => exact ⟨parsed.1, parsed.2, network_canonical hread, rfl⟩

end Throne.Scanner.IpListParse
