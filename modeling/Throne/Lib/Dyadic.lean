import Mathlib.Data.List.Perm.Subperm
import Mathlib.Tactic.Ring

/-!
# Aligned blocks of numbers

A block of `2 ^ width` numbers that starts at a multiple of its length. Two such blocks are disjoint or one is
inside the other (`apart_or_nested`). `Cover` splits a range greedily: from its first number the greatest aligned
block that fits, and then on behind it. The blocks of a cover are the greatest ones inside the range: any
aligned block inside the range is inside one of them or apart from it (`Cover.greatest`), and a block whose
double is not inside the range is one of them (`Cover.mem_of_double`).
-/

namespace Throne.Lib.Dyadic

open List

structure Block where
  start : Nat
  width : Nat
  deriving DecidableEq

namespace Block

variable (b : Block)

def length : Nat := 2 ^ b.width

/-- Where the numbers behind the block begin. -/
def stop : Nat := b.start + b.length

def Aligned : Prop := b.length ∣ b.start

/-- Every number of the block is in a range. -/
def Inside (first last : Nat) : Prop := first ≤ b.start ∧ b.stop ≤ last + 1

/-- No number is in both. -/
def Apart (a b : Block) : Prop := a.stop ≤ b.start ∨ b.stop ≤ a.start

/-- Every number of the one is in the other. -/
def Nested (a b : Block) : Prop := b.start ≤ a.start ∧ a.stop ≤ b.stop

/-- The aligned block of twice the length. -/
def double : Block := ⟨b.start / 2 ^ (b.width + 1) * 2 ^ (b.width + 1), b.width + 1⟩

theorem length_pos : 0 < b.length := Nat.two_pow_pos b.width

theorem double_aligned : b.double.Aligned := Nat.dvd_mul_left _ _

/-- A block is inside its double. -/
theorem nested_double {b : Block} (h : b.Aligned) : b.Nested b.double := by
  obtain ⟨k, hk⟩ := h
  have hle : b.start / 2 ^ (b.width + 1) * 2 ^ (b.width + 1) ≤ b.start := Nat.div_mul_le_self _ _
  refine ⟨hle, ?_⟩
  -- counted in lengths, the block is the first or the second half of the double
  have hhalf : b.start / 2 ^ (b.width + 1) = k / 2 := by
    rw [hk, length, Nat.pow_succ, Nat.mul_div_mul_left _ _ (Nat.two_pow_pos b.width)]
  have hstep : k + 1 ≤ (k / 2) * 2 + 2 := by omega
  have hscaled := Nat.mul_le_mul_left (2 ^ b.width) hstep
  show b.start + 2 ^ b.width ≤ b.start / 2 ^ (b.width + 1) * 2 ^ (b.width + 1) + 2 ^ (b.width + 1)
  rw [hhalf, hk, length, Nat.pow_succ]
  calc 2 ^ b.width * k + 2 ^ b.width = 2 ^ b.width * (k + 1) := by ring
    _ ≤ 2 ^ b.width * (k / 2 * 2 + 2) := hscaled
    _ = k / 2 * (2 ^ b.width * 2) + 2 ^ b.width * 2 := by ring

/-- Aligned blocks are disjoint, or the shorter is inside the longer. -/
theorem apart_or_nested {a b : Block} (ha : a.Aligned) (hb : b.Aligned) (hwidth : a.width ≤ b.width) : a.Apart b ∨ a.Nested b := by
  obtain ⟨x, hx⟩ := ha
  have hlength : b.length = a.length * 2 ^ (b.width - a.width) := by
    rw [length, length, ← Nat.pow_add, Nat.add_sub_cancel' hwidth]
  obtain ⟨z, hz⟩ := hb
  -- in lengths of the shorter block: it is the `x`-th, the longer one begins at the `y`-th
  obtain ⟨y, hy⟩ : ∃ y, b.start = a.length * y := ⟨2 ^ (b.width - a.width) * z, by rw [hz, hlength, Nat.mul_assoc]⟩
  rcases Nat.lt_or_ge x y with hbefore | hfrom
  · left
    left
    rw [stop, hx, hy, ← Nat.mul_succ]
    exact Nat.mul_le_mul_left _ hbefore
  rcases Nat.lt_or_ge x (y + 2 ^ (b.width - a.width)) with hin | hbehind
  · right
    refine ⟨?_, ?_⟩
    · rw [hx, hy]
      exact Nat.mul_le_mul_left _ hfrom
    · rw [stop, stop, hx, hy, hlength, ← Nat.mul_add, ← Nat.mul_succ]
      exact Nat.mul_le_mul_left _ hin
  · left
    right
    rw [stop, hx, hy, hlength, ← Nat.mul_add]
    exact Nat.mul_le_mul_left _ hbehind

/-- Inside a longer aligned block there is room for the double. -/
theorem double_nested {a b : Block} (ha : a.Aligned) (hb : b.Aligned) (hwidth : a.width < b.width) (h : a.Nested b) : a.double.Nested b := by
  rcases apart_or_nested (double_aligned a) hb hwidth with hapart | hnested
  · have hin := nested_double ha
    have hpos := length_pos a
    unfold Apart Nested stop at *
    omega
  · exact hnested

end Block

/-- The aligned block at the start of a range that is the greatest one to fit. -/
structure Fits (first last : Nat) (b : Block) : Prop where
  start_eq : b.start = first
  aligned : b.Aligned
  fits : b.stop ≤ last + 1
  greatest : ∀ c : Block, c.start = first → c.Aligned → c.stop ≤ last + 1 → c.width ≤ b.width

/-- A range split greedily into aligned blocks. -/
inductive Cover (last : Nat) : Nat → List Block → Prop
  | done {first : Nat} {b : Block} : Fits first last b → b.stop = last + 1 → Cover last first [b]
  | more {first : Nat} {b : Block} {bs : List Block} :
      Fits first last b → b.stop ≤ last → Cover last b.stop bs → Cover last first (b :: bs)

section Cover

variable {first last : Nat} {bs : List Block}

theorem Cover.aligned (h : Cover last first bs) : ∀ b ∈ bs, b.Aligned := by
  induction h with
  | done hfits _ =>
    intro b hb
    rw [mem_singleton.1 hb]
    exact hfits.aligned
  | more hfits _ _ ih =>
    intro b hb
    rcases mem_cons.1 hb with rfl | hb
    · exact hfits.aligned
    · exact ih b hb

theorem Cover.inside (h : Cover last first bs) : ∀ b ∈ bs, b.Inside first last := by
  induction h with
  | done hfits _ =>
    intro b hb
    rw [mem_singleton.1 hb]
    exact ⟨Nat.le_of_eq hfits.start_eq.symm, hfits.fits⟩
  | @more first c cs hfits _ _ ih =>
    intro b hb
    rcases mem_cons.1 hb with rfl | hb
    · exact ⟨Nat.le_of_eq hfits.start_eq.symm, hfits.fits⟩
    · have hstart : c.stop ≤ b.start := (ih b hb).1
      have hbegin : c.start ≤ c.stop := Nat.le_add_right _ _
      rw [hfits.start_eq] at hbegin
      exact ⟨Nat.le_trans hbegin hstart, (ih b hb).2⟩

/-- Every number of the range is in a block. -/
theorem Cover.covers (h : Cover last first bs) {n : Nat} (hfirst : first ≤ n) (hlast : n ≤ last) : ∃ b ∈ bs, b.start ≤ n ∧ n < b.stop := by
  induction h with
  | @done first b hfits hstop =>
    refine ⟨b, mem_singleton.2 rfl, ?_, ?_⟩
    · rw [hfits.start_eq]
      exact hfirst
    · rw [hstop]
      exact Nat.lt_succ_of_le hlast
  | @more first b bs hfits _ _ ih =>
    rcases Nat.lt_or_ge n b.stop with hin | hbehind
    · refine ⟨b, mem_cons_self, ?_, hin⟩
      rw [hfits.start_eq]
      exact hfirst
    · obtain ⟨c, hc, hmem⟩ := ih hbehind
      exact ⟨c, mem_cons_of_mem _ hc, hmem⟩

/-- An aligned block inside the range is inside the first block or apart from it. -/
theorem Fits.apart_or_nested {b : Block} (h : Fits first last b) {d : Block} (hd : d.Aligned)
    (hin : d.Inside first last) : d.Apart b ∨ d.Nested b := by
  rcases Nat.le_total d.width b.width with hle | hle
  · exact Block.apart_or_nested hd h.aligned hle
  · rcases Block.apart_or_nested h.aligned hd hle with hapart | hnested
    · exact .inl hapart.symm
    · -- a longer one that holds the first block begins with the range
      have hstart : d.start = first := by
        have hbefore := hnested.1
        rw [h.start_eq] at hbefore
        exact Nat.le_antisymm hbefore hin.1
      have hsame : d.width = b.width := Nat.le_antisymm (h.greatest d hstart hd hin.2) hle
      right
      refine ⟨?_, ?_⟩
      · rw [hstart, h.start_eq]
      · rw [Block.stop, Block.stop, Block.length, Block.length, hstart, h.start_eq, hsame]

/-- No block of the cover is a smaller part of an aligned block inside the range. -/
theorem Cover.greatest (h : Cover last first bs) {d : Block} (hd : d.Aligned) (hin : d.Inside first last) : ∀ b ∈ bs, d.Apart b ∨ d.Nested b := by
  induction h with
  | done hfits _ =>
    intro b hb
    rw [mem_singleton.1 hb]
    exact hfits.apart_or_nested hd hin
  | @more first c cs hfits hmore hrest ih =>
    intro b hb
    rcases mem_cons.1 hb with rfl | hb
    · exact hfits.apart_or_nested hd hin
    · have hbehind : c.stop ≤ b.start := (hrest.inside b hb).1
      rcases hfits.apart_or_nested hd hin with hapart | hnested
      · rcases hapart with hbefore | hafter
        · -- nothing of the range is before its first block
          have hpos := d.length_pos
          have hfirst := hin.1
          have hstart := hfits.start_eq
          unfold Block.stop at hbefore
          omega
        · exact ih ⟨hafter, hin.2⟩ b hb
      · exact .inl (.inl (Nat.le_trans hnested.2 hbehind))

/-- An aligned block inside the range whose double is not is one of the blocks. -/
theorem Cover.mem_of_double (h : Cover last first bs) {d : Block} (hd : d.Aligned) (hin : d.Inside first last)
    (hdouble : ¬d.double.Inside first last) : d ∈ bs := by
  have hpos := d.length_pos
  have hlast : d.start ≤ last := by
    have hstop := hin.2
    unfold Block.stop at hstop
    omega
  obtain ⟨b, hb, hstart, hstop⟩ := h.covers hin.1 hlast
  have hnested : d.Nested b := by
    rcases h.greatest hd hin b hb with (hbefore | hafter) | hnested
    · unfold Block.stop at hbefore
      omega
    · omega
    · exact hnested
  have hlength : d.length ≤ b.length := by
    have hends := hnested.2
    unfold Block.stop at hends
    omega
  have hwidth : d.width ≤ b.width := (Nat.pow_le_pow_iff_right (by decide)).1 hlength
  rcases Nat.lt_or_eq_of_le hwidth with hlt | heq
  · -- a longer block would hold the double
    have hbig := Block.double_nested hd (h.aligned b hb) hlt hnested
    have hinside := h.inside b hb
    exact absurd ⟨Nat.le_trans hinside.1 hbig.1, Nat.le_trans hbig.2 hinside.2⟩ hdouble
  · have hsame : d = b := by
      have hends := hnested.2
      have hbegins := hnested.1
      unfold Block.stop Block.length at hends
      rw [heq] at hends
      have hstarts : d.start = b.start := by omega
      cases d
      cases b
      simp only [Block.mk.injEq]
      exact ⟨hstarts, heq⟩
    exact hsame ▸ hb

/-- The blocks stand one behind the other. -/
theorem Cover.ordered (h : Cover last first bs) : bs.Pairwise fun a b => a.stop ≤ b.start := by
  induction h with
  | done _ _ => exact pairwise_singleton _ _
  | more _ _ hrest ih => exact pairwise_cons.2 ⟨fun b hb => (hrest.inside b hb).1, ih⟩

/-- No cover of the range by aligned blocks has fewer. -/
theorem Cover.least (h : Cover last first bs) {ds : List Block} (hds : ∀ d ∈ ds, d.Aligned ∧ d.Inside first last)
    (hall : ∀ n, first ≤ n → n ≤ last → ∃ d ∈ ds, d.start ≤ n ∧ n < d.stop) : bs.length ≤ ds.length := by
  -- each block goes to one of the others that has its start
  have hpick (b : Block) : ∃ d, b ∈ bs → d ∈ ds ∧ d.start ≤ b.start ∧ b.start < d.stop := by
    by_cases hb : b ∈ bs
    · have hpos := b.length_pos
      obtain ⟨hstart, hstop⟩ := h.inside b hb
      unfold Block.stop at hstop
      obtain ⟨d, hd, hmem⟩ := hall b.start hstart (by omega)
      exact ⟨d, fun _ => ⟨hd, hmem⟩⟩
    · exact ⟨b, fun hmem => absurd hmem hb⟩
  choose f hf using hpick
  have hnested : ∀ b ∈ bs, (f b).Nested b := by
    intro b hb
    obtain ⟨hd, hstart, hstop⟩ := hf b hb
    have hpos := b.length_pos
    rcases h.greatest (hds _ hd).1 (hds _ hd).2 b hb with (hbefore | hafter) | hnested
    · omega
    · unfold Block.stop at hafter
      omega
    · exact hnested
  have hnodup : (bs.map f).Nodup := by
    rw [List.Nodup, pairwise_map]
    apply h.ordered.imp_of_mem
    intro a b ha hb hab hsame
    have hend := (hnested a ha).2
    have hbegin := (hf b hb).2.2
    rw [← hsame] at hbegin
    omega
  have hsub : bs.map f ⊆ ds := by
    intro d hd
    obtain ⟨b, hb, rfl⟩ := mem_map.1 hd
    exact (hf b hb).1
  have hlength := (subperm_of_subset hnodup hsub).length_le
  rwa [length_map] at hlength

end Cover

end Throne.Lib.Dyadic
