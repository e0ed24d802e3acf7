import Throne.Scanner.IpListCanonical

/-!
# The networks of a word

A word of a list says one network, or the blocks of a range. All of them are canonical unless the word is a
range that `CrossesMapped`; then one of its blocks is `::ffff:0:0/96`, which no reader takes for a network of
IPv6 addresses.
-/

namespace Throne.Scanner.IpListParse

open Lib.Texts Lib.Dyadic

/-- The mapped IPv4 addresses. -/
def mappedBlock : Block := ⟨0xffff * 2 ^ 32, 32⟩

/-- A word is a range of IPv6 addresses that begins behind the first address of `::fffe:0:0/95` and before the
mapped IPv4 addresses, and ends behind them. -/
def CrossesMapped (token : Text) : Bool :=
  match rangeEnds token with
  | none => false
  | some (first, last, _) =>
    first.v6 && decide (0xfffe * 2 ^ 32 < first.value) && decide (first.value < 0xffff * 2 ^ 32) && decide (2 ^ 48 ≤ last.value)

/-! ## Ends of a range -/

/-- An end of a range: an address that is not a mapped one. -/
structure RangeEnd (addr : IpListParseAddr) : Prop where
  valid : addr.Valid
  unmapped : ipListParseIsMapped addr = false

variable {addr : IpListParseAddr}

theorem rangeEnd_of_v4 (hvalid : addr.Valid) (hv6 : addr.v6 = false) : RangeEnd addr := by
  refine ⟨hvalid, ?_⟩
  rw [ipListParseIsMapped, hv6]
  rfl

theorem rangeEnd_spec {text : Text} (h : ipListParseRangeEnd text = some addr) : RangeEnd addr := by
  unfold ipListParseRangeEnd at h
  generalize (if text.head? = some '[' ∧ text.getLast? = some ']' then (text.drop 1).dropLast else text) = inner at h
  simp only at h
  split at h
  · cases h
  · obtain ⟨a, haddr, rfl⟩ := Option.map_eq_some_iff.1 h
    split
    · apply rangeEnd_of_v4
      · refine ⟨rfl, ?_⟩
        show a.lo &&& 2 ^ 32 - 1 < 2 ^ 32
        rw [and_ones]
        exact Nat.mod_lt _ (by decide)
      · rfl
    · next hmapped => exact ⟨address_valid haddr, Bool.not_eq_true _ ▸ hmapped⟩

variable {first last : IpListParseAddr}

theorem rangeLast_spec {right : Text} (hfirst : RangeEnd first) (h : rangeLast first right = some last) : RangeEnd last ∧ last.v6 = first.v6 := by
  unfold rangeLast at h
  split at h
  · next octet hoctet =>
    have hv6 : first.v6 = false := by
      by_contra hv6
      rw [if_pos (Bool.not_eq_false _ ▸ hv6)] at hoctet
      cases hoctet
    split at h
    · cases h
    · next hsmall =>
      rw [← Option.some.inj h]
      refine ⟨?_, rfl⟩
      apply rangeEnd_of_v4
      · have hvalid := hfirst.valid
        unfold IpListParseAddr.Valid at hvalid ⊢
        rw [hv6] at hvalid ⊢
        obtain ⟨hhi, hlo⟩ : first.hi = 0 ∧ first.lo < 2 ^ 32 := hvalid
        refine ⟨hhi, ?_⟩
        have hlow : octet < 2 ^ 8 := by
          have hle : ¬octet > 255 := fun hgt => hsmall (.inl hgt)
          omega
        show first.lo >>> 8 <<< 8 ||| octet < 2 ^ 32
        rw [shiftLeft_or _ hlow, Nat.shiftRight_eq_div_pow]
        omega
      · exact hv6
  · split at h
    · next a ha =>
      split at h
      · cases h
      · next hsame =>
        rw [← Option.some.inj h]
        exact ⟨rangeEnd_spec ha, not_not.1 hsame⟩
    · cases h

theorem less_iff {a b : IpListParseAddr} (ha : a.Valid) (hb : b.Valid) : ipListParseLess a b = true ↔ a.value < b.value := by
  have hfirst := valid_words ha
  have hlast := valid_words hb
  unfold ipListParseLess IpListParseAddr.value
  split <;> rw [decide_eq_true_eq] <;> omega

/-- The ends of a range are in order and of one family. -/
structure RangeEnds (first last : IpListParseAddr) : Prop where
  first_end : RangeEnd first
  last_end : RangeEnd last
  family : last.v6 = first.v6
  ordered : first.value ≤ last.value

variable {token : Text}

theorem rangeEnds_spec {port : Int} (h : rangeEnds token = some (first, last, port)) : RangeEnds first last := by
  unfold rangeEnds at h
  split at h
  · cases h
  · split at h
    · cases h
    · split at h
      · cases h
      · next a ha =>
        obtain ⟨b, hb, hpair⟩ := Option.map_eq_some_iff.1 h
        have haEnd := rangeEnd_spec ha
        obtain ⟨hbEnd, hfamily⟩ := rangeLast_spec haEnd hb
        have hless := less_iff hbEnd.valid haEnd.valid
        split at hpair
        · next hswap =>
          obtain ⟨rfl, rfl⟩ : b = first ∧ a = last := ⟨congrArg Prod.fst hpair, congrArg (fun p => p.2.1) hpair⟩
          exact ⟨hbEnd, haEnd, hfamily.symm, Nat.le_of_lt (hless.1 hswap)⟩
        · next hkeep =>
          obtain ⟨rfl, rfl⟩ : a = first ∧ b = last := ⟨congrArg Prod.fst hpair, congrArg (fun p => p.2.1) hpair⟩
          exact ⟨haEnd, hbEnd, hfamily, Nat.not_lt.1 fun hlt => hkeep (hless.2 hlt)⟩

/-! ## Blocks of a range -/

variable {cidrs : List Text}

section Blocks

variable {first last : IpListParseAddr}

theorem unmapped_end (h : RangeEnd addr) (hv6 : addr.v6 = true) : addr.value / 2 ^ 32 ≠ 0xffff := by
  intro hmapped
  have hyes := (isMapped_iff h.valid).2 ⟨hv6, hmapped⟩
  rw [h.unmapped] at hyes
  exact Bool.false_ne_true hyes

/-- The range goes from half of the mapped addresses and their lower neighbours up to behind them. -/
def Crosses (first last : IpListParseAddr) : Prop :=
  first.v6 = true ∧ 0xfffe * 2 ^ 32 < first.value ∧ first.value < 0xffff * 2 ^ 32 ∧ 2 ^ 48 ≤ last.value

theorem mappedBlock_aligned : mappedBlock.Aligned := ⟨0xffff, by decide⟩

/-- A range that crosses has the mapped addresses as a block. -/
theorem mappedBlock_mem {bs : List Block} (hcover : Cover last.value first.value bs) (h : Crosses first last) : mappedBlock ∈ bs := by
  obtain ⟨-, hlow, hhigh, hlast⟩ := h
  apply hcover.mem_of_double mappedBlock_aligned
  · show first.value ≤ 0xffff * 2 ^ 32 ∧ 0xffff * 2 ^ 32 + 2 ^ 32 ≤ last.value + 1
    omega
  · intro hdouble
    have hstart : first.value ≤ 0xffff * 2 ^ 32 / 2 ^ 33 * 2 ^ 33 := hdouble.1
    omega

/-- Only in such a range a block of mapped addresses is on its own. -/
theorem crosses_of_block {bs : List Block} (hcover : Cover last.value first.value bs) (hends : RangeEnds first last)
    (hv6 : first.v6 = true) {b : Block} (hb : b ∈ bs) (hmapped : b.start / 2 ^ 32 = 0xffff) (hwidth : b.width ≤ 32) : Crosses first last := by
  have hfirst := unmapped_end hends.first_end hv6
  have hlast := unmapped_end hends.last_end (hends.family.trans hv6)
  have hinside := hcover.inside b hb
  have hlength : b.length ≤ 2 ^ 32 := Nat.pow_le_pow_right (by decide) hwidth
  have hpos := b.length_pos
  obtain ⟨hstart, hstop⟩ := hinside
  unfold Block.stop at hstop
  -- the ends are not mapped, so all mapped addresses are in the range
  have hlow : first.value < 0xffff * 2 ^ 32 := by omega
  have hhigh : 2 ^ 48 ≤ last.value := by omega
  refine ⟨hv6, ?_, hlow, hhigh⟩
  by_contra hbelow
  have hin : mappedBlock.double.Inside first.value last.value := by
    show first.value ≤ 0xffff * 2 ^ 32 / 2 ^ 33 * 2 ^ 33 ∧ 0xffff * 2 ^ 32 / 2 ^ 33 * 2 ^ 33 + 2 ^ 33 ≤ last.value + 1
    omega
  -- then the double of the mapped block is in a block of the cover, which is not this one
  rcases hcover.greatest mappedBlock.double_aligned hin b hb with (hbefore | hafter) | hnested
  · have hends : 0xffff * 2 ^ 32 / 2 ^ 33 * 2 ^ 33 + 2 ^ 33 ≤ b.start := hbefore
    omega
  · have hends : b.start + b.length ≤ 0xffff * 2 ^ 32 / 2 ^ 33 * 2 ^ 33 := hafter
    omega
  · have hends : 0xffff * 2 ^ 32 / 2 ^ 33 * 2 ^ 33 + 2 ^ 33 ≤ b.start + b.length := hnested.2
    have hbegins : b.start ≤ 0xffff * 2 ^ 32 / 2 ^ 33 * 2 ^ 33 := hnested.1
    omega

/-- The range is not the whole space, and its blocks are a cover. -/
theorem coverRange_spec (hends : RangeEnds first last) (h : ipListParseCoverRange first last = some cidrs) :
    last.value - first.value + 1 < 2 ^ ipListParseBits first ∧ ∃ bs, Cover last.value first.value bs ∧
    cidrs = bs.map fun b => ipListParseCidr (blockOf first.v6 b).1 (blockOf first.v6 b).2 := by
  have hpart : ¬WholeSpace first last := by
    rintro ⟨hzero, htop⟩
    -- then the words are those of the test
    have hwords := valid_words hends.last_end.valid
    have hvalid := hends.last_end.valid
    unfold IpListParseAddr.value at hzero htop
    unfold ipListParseBits at htop
    unfold IpListParseAddr.Valid at hvalid
    rw [hends.family] at hvalid
    have hall : first.hi = 0 ∧ first.lo = 0 ∧ last.hi = (if first.v6 then 2 ^ 64 - 1 else 0) ∧
        last.lo = if first.v6 then 2 ^ 64 - 1 else 2 ^ 32 - 1 := by
      refine ⟨by omega, by omega, ?_⟩
      cases hv6 : first.v6 with
      | false =>
        rw [hv6] at htop hvalid
        obtain ⟨hhi, hlo⟩ : last.hi = 0 ∧ last.lo < 2 ^ 32 := hvalid
        simp only [Bool.false_eq_true, if_false] at htop ⊢
        omega
      | true =>
        rw [hv6] at htop
        simp only [if_true] at htop ⊢
        omega
    simp only [ipListParseCoverRange] at h
    rw [if_pos hall] at h
    cases h
  obtain ⟨bs, hcover, -, hrange⟩ :=
    coverRange_blocks hends.first_end.valid hends.last_end.valid hends.family hends.ordered hpart
  rw [hrange] at h
  exact ⟨size_lt hends.last_end.valid hends.family hends.ordered hpart, bs, hcover, (Option.some.inj h).symm⟩

end Blocks

/-! ## Networks of a word -/

/-- The network the reader refuses. -/
def mappedNetwork : Text := "::ffff:0:0/96".toList

theorem mappedNetwork_refused : NormalizeCidr mappedNetwork = [] := by decide

/-- The blocks of a range that does not cross are canonical. -/
theorem range_canonical (hends : RangeEnds first last) (h : ipListParseCoverRange first last = some cidrs) (hcross : ¬Crosses first last) :
    ∀ cidr ∈ cidrs, ∃ addr bits, Canonical addr bits ∧ cidr = ipListParseCidr addr bits := by
  obtain ⟨hsize, bs, hcover, rfl⟩ := coverRange_spec hends h
  intro cidr hcidr
  obtain ⟨b, hb, rfl⟩ := List.mem_map.1 hcidr
  refine ⟨_, _, ?_, rfl⟩
  obtain ⟨hstart, hstop⟩ := hcover.inside b hb
  have haligned : 2 ^ b.width ∣ b.start := hcover.aligned b hb
  have hpos := b.length_pos
  unfold Block.stop at hstop
  have hlast := value_lt hends.last_end.valid
  have hbits : ipListParseBits last = ipListParseBits first := by
    rw [ipListParseBits, ipListParseBits, hends.family]
  rw [hbits] at hlast
  have hvalid : (ofValue first.v6 b.start).Valid := by
    apply ofValue_valid
    show _ < 2 ^ ipListParseBits first
    omega
  have hwidth : b.width < ipListParseBits first := by
    have hlength : 2 ^ b.width < 2 ^ ipListParseBits first := by
      have hle : b.length ≤ last.value - first.value + 1 := by omega
      exact Nat.lt_of_le_of_lt hle hsize
    exact (Nat.pow_lt_pow_iff_right (by decide)).1 hlength
  have hfamily := ofValue_v6 first.v6 b.start
  have hsame : ipListParseBits (ofValue first.v6 b.start) = ipListParseBits first := by
    rw [ipListParseBits, hfamily, ipListParseBits]
  refine ⟨hvalid, ?_, ?_, ?_, ?_⟩
  · show 0 < ipListParseBits first - b.width
    omega
  · show ipListParseBits first - b.width ≤ ipListParseBits (ofValue first.v6 b.start)
    rw [hsame]
    exact Nat.sub_le _ _
  · show 2 ^ (ipListParseBits (ofValue first.v6 b.start) - (ipListParseBits first - b.width)) ∣ (ofValue first.v6 b.start).value
    rw [hsame, value_ofValue, Nat.sub_sub_self (Nat.le_of_lt hwidth)]
    exact haligned
  · rintro ⟨hmapped, hlong⟩
    have hlong' : 96 ≤ ipListParseBits first - b.width := hlong
    obtain ⟨hv6, hvalue⟩ := (isMapped_iff hvalid).1 hmapped
    rw [hfamily] at hv6
    rw [value_ofValue] at hvalue
    have h128 : ipListParseBits first = 128 := by rw [ipListParseBits, if_pos hv6]
    exact hcross (crosses_of_block hcover hends hv6 hb hvalue (by omega))

theorem crosses_iff : CrossesMapped token = true ↔ ∃ first last port, rangeEnds token = some (first, last, port) ∧ Crosses first last := by
  unfold CrossesMapped
  split
  · next hnone =>
    rw [hnone]
    simp
  · next first last port hsome =>
    rw [hsome]
    simp only [Bool.and_eq_true, decide_eq_true_eq, Option.some.injEq, Prod.mk.injEq, Crosses]
    constructor
    · rintro ⟨⟨⟨hv6, hlow⟩, hhigh⟩, hlast⟩
      exact ⟨first, last, port, ⟨rfl, rfl, rfl⟩, hv6, hlow, hhigh, hlast⟩
    · rintro ⟨_, _, _, ⟨rfl, rfl, rfl⟩, hv6, hlow, hhigh, hlast⟩
      exact ⟨⟨⟨hv6, hlow⟩, hhigh⟩, hlast⟩

/-- **Canonical networks.** A word that does not cross the mapped addresses says canonical networks only. -/
theorem token_canonical {port : Int} (h : ipListParseAddressToken token = some (cidrs, port)) (hcross : CrossesMapped token = false) :
    ∀ cidr ∈ cidrs, ∃ addr bits, Canonical addr bits ∧ cidr = ipListParseCidr addr bits := by
  unfold ipListParseAddressToken at h
  split at h
  · cases h
  · split at h
    · unfold ipListParseRangeToken at h
      split at h
      · cases h
      · next first last p hends =>
        obtain ⟨found, hfound, hpair⟩ := Option.map_eq_some_iff.1 h
        obtain ⟨rfl, rfl⟩ := Prod.mk.inj hpair
        apply range_canonical (rangeEnds_spec hends) hfound
        intro hyes
        rw [crosses_iff.2 ⟨first, last, p, hends, hyes⟩] at hcross
        exact Bool.false_ne_true hcross.symm
    · split at h
      · cases h
      · obtain ⟨parsed, hparsed, hpair⟩ := Option.map_eq_some_iff.1 h
        obtain ⟨rfl, rfl⟩ := Prod.mk.inj hpair
        intro cidr hcidr
        rw [List.mem_singleton.1 hcidr]
        exact ⟨parsed.1, parsed.2, network_canonical hparsed, rfl⟩

/-- A word that crosses them says the network of all of them. -/
theorem token_crosses (h : CrossesMapped token = true) :
    ∃ cidrs port, ipListParseAddressToken token = some (cidrs, port) ∧ mappedNetwork ∈ cidrs := by
  obtain ⟨first, last, port, hends, hcross⟩ := crosses_iff.1 h
  have hspec := rangeEnds_spec hends
  -- the word is not empty, and has a hyphen
  have hdash : token.contains '-' = true := by
    by_contra hno
    have hcut := cutAt_append "-".toList '-' [] rfl token (fun c hc heq =>
      hno (List.contains_iff_mem.2 (heq ▸ hc))) []
    rw [List.append_nil] at hcut
    unfold rangeEnds at hends
    rw [hcut] at hends
    exact absurd hends (by simp [cutAt])
  have hne : token ≠ [] := by
    intro hnil
    rw [hnil] at hdash
    cases hdash
  have hpart : ¬(first.hi = 0 ∧ first.lo = 0 ∧ last.hi = (if first.v6 then 2 ^ 64 - 1 else 0) ∧
      last.lo = if first.v6 then 2 ^ 64 - 1 else 2 ^ 32 - 1) := by
    rintro ⟨hhi, hlo, -⟩
    have hlow := hcross.2.1
    rw [IpListParseAddr.value, hhi, hlo] at hlow
    omega
  obtain ⟨cidrs, hcidrs⟩ : ∃ cidrs, ipListParseCoverRange first last = some cidrs := by
    simp only [ipListParseCoverRange]
    rw [if_neg hpart]
    exact ⟨_, rfl⟩
  obtain ⟨-, bs, hcover, hblocks⟩ := coverRange_spec hspec hcidrs
  refine ⟨cidrs, port, ?_, ?_⟩
  · rw [ipListParseAddressToken, if_neg hne, hdash, if_pos rfl, ipListParseRangeToken, hends]
    simp only [hcidrs, Option.map_some]
  · rw [hblocks]
    have hblock : mappedNetwork = ipListParseCidr (blockOf first.v6 mappedBlock).1 (blockOf first.v6 mappedBlock).2 := by
      rw [hcross.1]
      decide
    rw [hblock]
    exact List.mem_map_of_mem (f := fun b => ipListParseCidr (blockOf first.v6 b).1 (blockOf first.v6 b).2) (mappedBlock_mem hcover hcross)

end Throne.Scanner.IpListParse
