import Throne.Scanner.IpListCover

/-!
# The least cover of a range

What `ipListParseCoverRange` makes of a range: aligned blocks one behind the other, which are the range and as few
as they can be (`cover_exact`). Of the words it works on only the low ones wrap, each time with the borrow or the
carry taken to the high one, and every shift is by less than a word (`WordsExact`).
-/

namespace Throne.Scanner.IpListParse

open Lib.Texts Lib.Dyadic

/-- What the words of a turn of the loop do, `first` being where the turn begins. -/
structure WordsExact (first last : IpListParseAddr) : Prop where
  /-- Both shifts, by the exponent below a word and by what it is over one. -/
  shift : min (coverAlign first) (coverFit first last) < 128
  /-- The borrow of the low words fits into the high ones. -/
  borrow : first.hi + (if last.lo < first.lo then 1 else 0) ≤ last.hi
  /-- The carry of the size fits. -/
  size : sub64 (sub64 last.hi first.hi) (if last.lo < first.lo then 1 else 0) +
    (if add64 (sub64 last.lo first.lo) 1 = 0 then 1 else 0) < 2 ^ 64
  /-- The two words of the size are the number of addresses left. -/
  count : last.value - first.value + 1 = add64 (sub64 (sub64 last.hi first.hi) (if last.lo < first.lo then 1 else 0))
      (if add64 (sub64 last.lo first.lo) 1 = 0 then 1 else 0) * 2 ^ 64 + add64 (sub64 last.lo first.lo) 1
  /-- Behind a block that is not the last one the carry fits, and the next turn begins at the next address. -/
  next : blockEnd first (min (coverAlign first) (coverFit first last)) ≠ last →
    (blockEnd first (min (coverAlign first) (coverFit first last))).hi +
        (if add64 (blockEnd first (min (coverAlign first) (coverFit first last))).lo 1 = 0 then 1 else 0) < 2 ^ 64 ∧
      (afterBlock (blockEnd first (min (coverAlign first) (coverFit first last)))).value =
        (blockEnd first (min (coverAlign first) (coverFit first last))).value + 1

section Exact

variable {first last : IpListParseAddr}

/-- Addresses up to another one of the words, with the high word up to its own. -/
theorem words_exact (ha : first.Valid) (hb : last.Valid) (hfamily : last.v6 = first.v6)
    (hle : first.value ≤ last.value) (hsize : last.value - first.value + 1 < 2 ^ ipListParseBits first) : WordsExact first last := by
  have hfirst := valid_words ha
  have hlast := valid_words hb
  have hspace : (2 : Nat) ^ ipListParseBits first ≤ 2 ^ 128 := by
    apply Nat.pow_le_pow_right (by decide)
    unfold ipListParseBits
    split <;> decide
  have hsize' : last.value - first.value + 1 < 2 ^ 128 := Nat.lt_of_lt_of_le hsize hspace
  have hcount := size_words ha hb hle hsize'
  have hfits := fits_block ha hb hle hsize
  have hbits := value_lt hb
  obtain ⟨k, hk⟩ : ∃ k, k = min (coverAlign first) (coverFit first last) := ⟨_, rfl⟩
  rw [← hk] at hfits
  have hstop : first.value + 2 ^ k ≤ last.value + 1 := hfits.fits
  have hend := blockEnd_eq ha hfits.aligned
  refine ⟨?_, ?_, ?_, hcount, ?_⟩
  · rw [← hk]
    apply (Nat.pow_lt_pow_iff_right (by decide : 1 < 2)).1
    omega
  · unfold IpListParseAddr.value at hle
    split <;> omega
  · unfold IpListParseAddr.value at hle hsize'
    unfold add64 sub64
    split <;> split <;> omega
  · rw [← hk, hend]
    intro hmore
    have hpos := Nat.two_pow_pos k
    have hne : first.value + (2 ^ k - 1) ≠ last.value := by
      intro hsame
      apply hmore
      rw [hsame, ← hfamily, ofValue_value hb]
    rw [bits_eq hfamily] at hbits
    have hlt : first.value + (2 ^ k - 1) + 1 < 2 ^ 128 := by omega
    refine ⟨?_, ?_⟩
    · show (first.value + (2 ^ k - 1)) / 2 ^ 64 + (if ((first.value + (2 ^ k - 1)) % 2 ^ 64 + 1) % 2 ^ 64 = 0 then 1 else 0) < 2 ^ 64
      split <;> omega
    · rw [afterBlock_ofValue _ hlt, value_ofValue, value_ofValue]

end Exact

/-- The blocks of a list are a range. -/
def Covers (bs : List Block) (first last : Nat) : Prop := ∀ n, (∃ b ∈ bs, b.start ≤ n ∧ n < b.stop) ↔ first ≤ n ∧ n ≤ last

theorem covers_inside {bs : List Block} {first last : Nat} (h : Covers bs first last) : ∀ b ∈ bs, b.Inside first last := by
  intro b hb
  have hpos := b.length_pos
  have hstart := (h b.start).1 ⟨b, hb, Nat.le_refl _, Nat.lt_add_of_pos_right hpos⟩
  have hstop := (h (b.stop - 1)).1 ⟨b, hb, by unfold Block.stop; omega, by unfold Block.stop; omega⟩
  refine ⟨hstart.1, ?_⟩
  have hends := hstop.2
  omega

theorem covers_of_cover {bs : List Block} {first last : Nat} (h : Cover last first bs) : Covers bs first last := by
  intro n
  constructor
  · rintro ⟨b, hb, hstart, hstop⟩
    obtain ⟨hfirst, hlast⟩ := h.inside b hb
    omega
  · rintro ⟨hfirst, hlast⟩
    exact h.covers hfirst hlast

/-- **A range is covered exactly, by as few blocks as can be**, and the words it is done on lose nothing. -/
theorem cover_exact (first last : IpListParseAddr) (ha : first.Valid) (hb : last.Valid) (hfamily : last.v6 = first.v6)
    (hle : first.value ≤ last.value) (hpart : ¬WholeSpace first last) : ∃ bs : List Block, ipListParseCoverRange first last =
    some (bs.map fun b => ipListParseCidr (ofValue first.v6 b.start) (ipListParseBits first - b.width)) ∧
    (∀ b ∈ bs, b.Aligned ∧ b.width ≤ ipListParseBits first) ∧ (bs.Pairwise fun a b => a.stop ≤ b.start) ∧ Covers bs first.value last.value ∧
    (∀ ds : List Block, (∀ d ∈ ds, d.Aligned) → Covers ds first.value last.value → bs.length ≤ ds.length) ∧
    ∀ b ∈ bs, WordsExact (ofValue first.v6 b.start) last := by
  obtain ⟨bs, hcover, -, hrange⟩ := coverRange_blocks ha hb hfamily hle hpart
  refine ⟨bs, hrange, ?_, hcover.ordered, covers_of_cover hcover, ?_, ?_⟩
  · intro b hmem
    obtain ⟨hstart, hstop⟩ := hcover.inside b hmem
    have hsize := size_lt hb hfamily hle hpart
    refine ⟨hcover.aligned b hmem, Nat.le_of_lt ((Nat.pow_lt_pow_iff_right (by decide : 1 < 2)).1 ?_)⟩
    unfold Block.stop Block.length at hstop
    omega
  · intro ds haligned hcovers
    apply hcover.least
    · exact fun d hd => ⟨haligned d hd, covers_inside hcovers d hd⟩
    · exact fun n hfirst hlast => (hcovers n).2 ⟨hfirst, hlast⟩
  · intro b hmem
    obtain ⟨hstart, hstop⟩ := hcover.inside b hmem
    have hpos := b.length_pos
    have hlast := value_lt hb
    have hsize := size_lt hb hfamily hle hpart
    unfold Block.stop at hstop
    have hvalue : (ofValue first.v6 b.start).value = b.start := value_ofValue _ _
    apply words_exact _ hb (hfamily.trans (ofValue_v6 first.v6 b.start).symm)
    · rw [hvalue]
      omega
    · rw [hvalue]
      show last.value - b.start + 1 < 2 ^ ipListParseBits first
      omega
    · apply ofValue_valid
      rw [← hfamily]
      show _ < 2 ^ ipListParseBits last
      omega

/-- A range of IPv6 addresses up to the end of a low word. -/
theorem low_word_cover : ∃ bs : List Block, ipListParseCoverRange ⟨true, 0, 2⟩ ⟨true, 1, 2⟩ =
    some (bs.map fun b => ipListParseCidr (ofValue true b.start) (ipListParseBits ⟨true, 0, 2⟩ - b.width)) ∧
    (∀ b ∈ bs, b.Aligned ∧ b.width ≤ ipListParseBits ⟨true, 0, 2⟩) ∧ (bs.Pairwise fun a b => a.stop ≤ b.start) ∧ Covers bs 2 (2 ^ 64 + 2) ∧
    (∀ ds : List Block, (∀ d ∈ ds, d.Aligned) → Covers ds 2 (2 ^ 64 + 2) → bs.length ≤ ds.length) ∧
    ∀ b ∈ bs, WordsExact (ofValue true b.start) ⟨true, 1, 2⟩ :=
  cover_exact ⟨true, 0, 2⟩ ⟨true, 1, 2⟩ (by unfold IpListParseAddr.Valid; decide) (by unfold IpListParseAddr.Valid; decide)
    rfl (by decide) (by unfold WholeSpace; decide)

/-- Two additions of low words wrap: that of the size, and that behind the first block. -/
theorem low_word_wraps : ∃ first last : IpListParseAddr, first.Valid ∧ last.Valid ∧ last.v6 = first.v6 ∧ first.value ≤ last.value ∧
    ¬WholeSpace first last ∧ (∃ cidrs, ipListParseCoverRange first last = some cidrs) ∧
    ¬(blockEnd first (min (coverAlign first) (coverFit first last)) ≠ last →
    (blockEnd first (min (coverAlign first) (coverFit first last))).lo + 1 < 2 ^ 64) := by
  refine ⟨⟨true, 0, 0⟩, ⟨true, 1, 0⟩, by unfold IpListParseAddr.Valid; decide, by unfold IpListParseAddr.Valid; decide,
    rfl, by decide, by unfold WholeSpace; decide, ⟨_, rfl⟩, ?_⟩
  intro hall
  exact absurd (hall (by decide)) (by decide)

end Throne.Scanner.IpListParse
