import Mathlib.Data.Nat.ModEq
import Mathlib.Data.Nat.Bitwise
import Mathlib.Dynamics.PeriodicPts.Lemmas

/-!
# Permutations of an initial segment

`PermBelow N f` states that `f` maps the numbers below `N` into themselves without collisions, so
that it permutes them. The steps of a keyed mixer (adding a constant, folding the high bits onto the
low ones, multiplying by an odd number) permute the numbers below a power of two
(`permBelow_add`, `permBelow_xorShift`, `permBelow_oddMul`), and permutations compose.

Cycle walking turns a permutation of a larger segment into one of a smaller segment: apply `f` until
the value falls below `total`. `walk` does so with a bound on the number of applications; a bound of
`N` is always enough (`exists_walk`), and different starts end at different values (`walk_inj`).
-/

namespace Throne.Lib.Permutation

open List

/-- `f` permutes the numbers below `N`. -/
structure PermBelow (N : Nat) (f : Nat → Nat) : Prop where
  lt : ∀ {x}, x < N → f x < N
  inj : ∀ {x y}, x < N → y < N → f x = f y → x = y

variable {N : Nat} {f : Nat → Nat}

theorem PermBelow.comp {g : Nat → Nat} (hf : PermBelow N f) (hg : PermBelow N g) : PermBelow N fun x => f (g x) where
  lt hx := hf.lt (hg.lt hx)
  inj hx hy h := hg.inj hx hy (hf.inj (hg.lt hx) (hg.lt hy) h)

/-- Adding a constant modulo `N`. -/
theorem permBelow_add (hN : 0 < N) (a : Nat) : PermBelow N fun x => (x + a) % N where
  lt _ := Nat.mod_lt _ hN
  inj {x y} hx hy h := by
    have hmod : x ≡ y [MOD N] := Nat.ModEq.add_right_cancel' a h
    exact Nat.ModEq.eq_of_lt_of_lt hmod hx hy

/-- Multiplying by an odd number modulo a power of two. -/
theorem permBelow_oddMul (w : Nat) {m : Nat} (hm : m % 2 = 1) : PermBelow (2 ^ w) fun x => x * m % 2 ^ w where
  lt _ := Nat.mod_lt _ (Nat.two_pow_pos w)
  inj {x y} hx hy h := by
    have hcop : Nat.gcd (2 ^ w) m = 1 := by
      have h2 : Nat.Coprime 2 m := (Nat.coprime_two_left).2 (Nat.odd_iff.2 hm)
      exact Nat.Coprime.pow_left w h2
    have hmod : x ≡ y [MOD 2 ^ w] := Nat.ModEq.cancel_right_of_coprime hcop h
    exact Nat.ModEq.eq_of_lt_of_lt hmod hx hy

variable {x y : Nat}

/-- Folding the bits from position `s` on onto the low bits. Two values with one image differ in a
number that equals its own shift, hence in nothing. -/
theorem xorShift_inj {s : Nat} (hs : 0 < s) (h : x ^^^ (x >>> s) = y ^^^ (y >>> s)) : x = y := by
  have hdiff : x ^^^ y = (x ^^^ y) >>> s := by
    rw [Nat.shiftRight_xor_distrib]
    calc x ^^^ y = x ^^^ y ^^^ ((x ^^^ (x >>> s)) ^^^ (y ^^^ (y >>> s))) := by rw [h]; simp
      _ = (x ^^^ x) ^^^ (y ^^^ y) ^^^ ((x >>> s) ^^^ (y >>> s)) := by ac_rfl
      _ = (x >>> s) ^^^ (y >>> s) := by simp
  have hzero : x ^^^ y = 0 := by
    by_contra hne
    have hlt : (x ^^^ y) >>> s < x ^^^ y := by
      rw [Nat.shiftRight_eq_div_pow]
      exact Nat.div_lt_self (Nat.pos_of_ne_zero hne) (Nat.one_lt_two_pow (Nat.pos_iff_ne_zero.1 hs))
    exact absurd hdiff.symm (Nat.ne_of_lt hlt)
  exact Nat.xor_eq_zero_iff.1 hzero

theorem permBelow_xorShift (w : Nat) {s : Nat} (hs : 0 < s) : PermBelow (2 ^ w) fun x => x ^^^ (x >>> s) where
  lt {x} hx := by
    have hshift : x >>> s < 2 ^ w := (Nat.shiftRight_le x s).trans_lt hx
    exact Nat.xor_lt_two_pow hx hshift
  inj _ _ h := xorShift_inj hs h

/-- A permutation reaches every value of the segment. -/
theorem PermBelow.surj (hf : PermBelow N f) (hy : y < N) : ∃ x, x < N ∧ f x = y := by
  have hinj : Function.Injective fun x : Fin N => (⟨f x, hf.lt x.2⟩ : Fin N) := by
    intro a b h
    exact Fin.ext (hf.inj a.2 b.2 (congrArg Fin.val h))
  obtain ⟨x, hx⟩ := Finite.injective_iff_surjective.1 hinj ⟨y, hy⟩
  exact ⟨x, x.2, congrArg Fin.val hx⟩

/-- A permutation of the numbers below `N` lists each of them once. -/
theorem PermBelow.map_range_perm (h : PermBelow N f) : ((List.range N).map f).Perm (List.range N) := by
  have hnodup : ((List.range N).map f).Nodup := by
    apply Nodup.map_on _ nodup_range
    intro x hx y hy heq
    exact h.inj (mem_range.1 hx) (mem_range.1 hy) heq
  apply (perm_ext_iff_of_nodup hnodup nodup_range).2
  intro y
  rw [mem_map, mem_range]
  constructor
  · rintro ⟨x, hx, rfl⟩
    exact h.lt (mem_range.1 hx)
  · intro hy
    obtain ⟨x, hx, rfl⟩ := h.surj hy
    exact ⟨x, mem_range.2 hx, rfl⟩

/-! ## Cycle walking -/

/-- Apply `f` until the value falls below `total`, at most `fuel` times. -/
def walk (f : Nat → Nat) (total : Nat) : Nat → Nat → Option Nat
  | 0, _ => none
  | fuel + 1, x => if f x < total then some (f x) else walk f total fuel (f x)

/-- A walk ends at the first iterate below `total`. -/
theorem walk_eq_some {total : Nat} : ∀ {fuel x y : Nat}, walk f total fuel x = some y ↔
    ∃ k, k < fuel ∧ y = f^[k + 1] x ∧ y < total ∧ ∀ j, j < k → total ≤ f^[j + 1] x := by
  intro fuel
  induction fuel with
  | zero => simp [walk]
  | succ fuel ih =>
    intro x y
    unfold walk
    split
    · next hlt =>
      constructor
      · rintro ⟨⟩
        exact ⟨0, Nat.succ_pos _, rfl, hlt, fun j hj => absurd hj (Nat.not_lt_zero j)⟩
      · rintro ⟨k, -, rfl, -, hbefore⟩
        cases k with
        | zero => rfl
        | succ k => exact absurd hlt (Nat.not_lt.2 (hbefore 0 (Nat.succ_pos k)))
    · next hge =>
      rw [ih]
      constructor
      · rintro ⟨k, hk, rfl, hy, hbefore⟩
        refine ⟨k + 1, Nat.succ_lt_succ hk, rfl, hy, ?_⟩
        intro j hj
        cases j with
        | zero => exact Nat.not_lt.1 hge
        | succ j => exact hbefore j (Nat.lt_of_succ_lt_succ hj)
      · rintro ⟨k, hk, rfl, hy, hbefore⟩
        cases k with
        | zero => exact absurd hy hge
        | succ k =>
          refine ⟨k, Nat.lt_of_succ_lt_succ hk, rfl, hy, fun j hj => ?_⟩
          exact hbefore (j + 1) (Nat.succ_lt_succ hj)

section Walk

variable {N total : Nat} {f : Nat → Nat}

theorem PermBelow.iterate_lt (hf : PermBelow N f) (hx : x < N) : ∀ k, f^[k] x < N
  | 0 => hx
  | k + 1 => by
    rw [Function.iterate_succ_apply']
    exact hf.lt (hf.iterate_lt hx k)

theorem PermBelow.iterate_inj (hf : PermBelow N f) (hx : x < N) (hy : y < N) : ∀ k, f^[k] x = f^[k] y → x = y
  | 0, h => h
  | k + 1, h => by
    rw [Function.iterate_succ_apply', Function.iterate_succ_apply'] at h
    exact hf.iterate_inj hx hy k (hf.inj (hf.iterate_lt hx k) (hf.iterate_lt hy k) h)

/-- Every value returns to itself after at most `N` applications. -/
theorem PermBelow.exists_return (hf : PermBelow N f) (hx : x < N) : ∃ k, k < N ∧ f^[k + 1] x = x := by
  let g : Fin N → Fin N := fun a => ⟨f a, hf.lt a.2⟩
  have hinj : Function.Injective g := by
    intro a b h
    exact Fin.ext (hf.inj a.2 b.2 (congrArg Fin.val h))
  have hval : ∀ k (a : Fin N), (g^[k] a).val = f^[k] a.val := by
    intro k
    induction k with
    | zero => exact fun _ => rfl
    | succ k ih =>
      intro a
      rw [Function.iterate_succ_apply, Function.iterate_succ_apply, ih]
  have hpos := Function.minimalPeriod_pos_of_mem_periodicPts (hinj.mem_periodicPts ⟨x, hx⟩)
  have hle : Function.minimalPeriod g ⟨x, hx⟩ ≤ N := by
    simpa using Function.minimalPeriod_le_card (f := g) (x := ⟨x, hx⟩)
  have hper : g^[Function.minimalPeriod g ⟨x, hx⟩] ⟨x, hx⟩ = ⟨x, hx⟩ := Function.iterate_minimalPeriod
  refine ⟨Function.minimalPeriod g ⟨x, hx⟩ - 1, by omega, ?_⟩
  rw [Nat.sub_add_cancel hpos, ← hval _ ⟨x, hx⟩, hper]

/-- With a bound of `N` applications the walk always ends, at a value below `total`. -/
theorem exists_walk (hf : PermBelow N f) (htotal : total ≤ N) (hx : x < total) : ∃ y, walk f total N x = some y ∧ y < total := by
  classical
  obtain ⟨k, hk, hret⟩ := hf.exists_return (hx.trans_le htotal)
  have hex : ∃ j, f^[j + 1] x < total := ⟨k, by rw [hret]; exact hx⟩
  have hfirst : Nat.find hex ≤ k := Nat.find_min' hex (by rw [hret]; exact hx)
  refine ⟨f^[Nat.find hex + 1] x, walk_eq_some.2 ⟨Nat.find hex, by omega, rfl, ?_, ?_⟩, ?_⟩
  · exact Nat.find_spec hex
  · exact fun j hj => Nat.not_lt.1 (Nat.find_min hex hj)
  · exact Nat.find_spec hex

/-- The longer of two walks to one value passes through the start of the shorter, which is below
`total`; a walk stops at the first such value, so neither is longer. -/
theorem walk_inj (hf : PermBelow N f) (htotal : total ≤ N) {fuel fuel' x' : Nat}
    (hx : x < total) (hx' : x' < total) (h : walk f total fuel x = some y) (h' : walk f total fuel' x' = some y) : x = x' := by
  have key : ∀ {x x' k k' : Nat}, x < total → x' < total → k ≤ k' → f^[k + 1] x = f^[k' + 1] x' → (∀ j, j < k' → total ≤ f^[j + 1] x') → x = x' := by
    intro x x' k k' hx hx' hle heq hbefore
    obtain ⟨d, rfl⟩ := Nat.exists_eq_add_of_le hle
    have hsplit : f^[k + d + 1] x' = f^[k + 1] (f^[d] x') := by
      rw [← Function.iterate_add_apply]
      congr 1
      omega
    rw [hsplit] at heq
    have hstart : x = f^[d] x' := hf.iterate_inj (hx.trans_le htotal) (hf.iterate_lt (hx'.trans_le htotal) d) (k + 1) heq
    cases d with
    | zero => exact hstart
    | succ d =>
      have hge := hbefore d (by omega)
      rw [← hstart] at hge
      exact absurd hx (Nat.not_lt.2 hge)
  obtain ⟨k, -, rfl, -, hbefore⟩ := walk_eq_some.1 h
  obtain ⟨k', -, heq, -, hbefore'⟩ := walk_eq_some.1 h'
  rcases Nat.le_total k k' with hle | hle
  · exact key hx hx' hle heq hbefore'
  · exact (key hx' hx hle heq.symm hbefore).symm

end Walk

end Throne.Lib.Permutation
