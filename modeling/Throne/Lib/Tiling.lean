import Mathlib.Data.List.Basic

/-!
# Contiguous tilings of a segment

A list of tiles covers the segment from `lo` to `hi` when each tile starts where the one before it
ends. A tile knows where it starts; its length is the distance to the next start or to `hi`. Looking
for the first tile that starts past a position and stepping back one finds the tile that holds the
position (`findIdx_tile`), and a position given by a tile and an offset inside it is found in that
tile (`findIdx_of_offset`).
-/

namespace Throne.Lib.Tiling

universe u

variable {α : Type u}

/-- The tiles cover the segment from `lo` to `hi`; `P lo t c` holds of each tile `t` that starts at
`lo` with length `c`. -/
def Tiles (start : α → Nat) (P : Nat → α → Nat → Prop) : List α → Nat → Nat → Prop
  | [], lo, hi => lo = hi
  | t :: ts, lo, hi => start t = lo ∧ ∃ c, 0 < c ∧ P lo t c ∧ Tiles start P ts (lo + c) hi

variable {start : α → Nat} {P : Nat → α → Nat → Prop} {ts : List α} {hi lo : Nat}

theorem Tiles.le (h : Tiles start P ts lo hi) : lo ≤ hi := by
  induction ts generalizing lo with
  | nil => exact Nat.le_of_eq h
  | cons t ts ih =>
    obtain ⟨-, c, -, -, hrest⟩ := h
    exact Nat.le_trans (Nat.le_add_right lo c) (ih hrest)

/-- One more tile at the end. -/
theorem Tiles.snoc (h : Tiles start P ts lo hi) {t : α} {c : Nat} (ht : start t = hi)
    (hc : 0 < c) (hP : P hi t c) : Tiles start P (ts ++ [t]) lo (hi + c) := by
  induction ts generalizing lo with
  | nil =>
    have h' : lo = hi := h
    subst h'
    exact ⟨ht, c, hc, hP, rfl⟩
  | cons s ts ih =>
    obtain ⟨hs, d, hd, hPs, hrest⟩ := h
    exact ⟨hs, d, hd, hPs, ih hrest⟩

/-- The first tile that starts past a position comes right after the tile that holds it. -/
theorem findIdx_tile {g : Nat} (h : Tiles start P ts lo hi) (hlo : lo ≤ g) (hhi : g < hi) :
    ∃ k t c, ts.findIdx (fun t => decide (g < start t)) = k + 1 ∧ ts[k]? = some t ∧ P (start t) t c ∧ start t ≤ g ∧ g < start t + c := by
  induction ts generalizing lo with
  | nil =>
    have h' : lo = hi := h
    omega
  | cons s ts ih =>
    obtain ⟨hs, d, -, hPs, hrest⟩ := h
    have hnot : decide (g < start s) = false := by simp [hs, hlo]
    rw [List.findIdx_cons, hnot, cond_false]
    rcases Nat.lt_or_ge g (lo + d) with hin | hpast
    · have hzero : ts.findIdx (fun t => decide (g < start t)) = 0 := by
        cases ts with
        | nil => rfl
        | cons r ts =>
          have hr : start r = lo + d := hrest.1
          simp [List.findIdx_cons, hr, hin]
      refine ⟨0, s, d, by rw [hzero], rfl, by rw [hs]; exact hPs, by omega, by omega⟩
    · obtain ⟨k, t, c, hfind, hget, hP, hle, hlt⟩ := ih hrest hpast
      exact ⟨k + 1, t, c, by rw [hfind], hget, hP, hle, hlt⟩

/-- Looking a position up by a tile and an offset inside it gives the tile back. -/
theorem findIdx_of_offset (h : Tiles start P ts lo hi) {k : Nat} {t : α}
    (hk : ts[k]? = some t) : ∃ c, P (start t) t c ∧ start t + c ≤ hi ∧ lo ≤ start t ∧ ∀ o, o < c →
    ts.findIdx (fun s => decide (start t + o < start s)) = k + 1 := by
  induction ts generalizing lo k with
  | nil => simp at hk
  | cons s ts ih =>
    obtain ⟨hs, d, -, hPs, hrest⟩ := h
    cases k with
    | zero =>
      simp only [List.getElem?_cons_zero, Option.some.injEq] at hk
      subst hk
      refine ⟨d, by rw [hs]; exact hPs, by rw [hs]; exact hrest.le, Nat.le_of_eq hs.symm, ?_⟩
      intro o ho
      have hnot : decide (start s + o < start s) = false := by simp
      rw [List.findIdx_cons, hnot, cond_false]
      cases ts with
      | nil => rfl
      | cons r ts =>
        have hr : start r = lo + d := hrest.1
        have hyes : decide (start s + o < start r) = true := by simp; omega
        rw [List.findIdx_cons, hyes, cond_true]
    | succ k =>
      obtain ⟨c, hP, hhi, hlo, hfind⟩ := ih hrest hk
      refine ⟨c, hP, hhi, by omega, fun o ho => ?_⟩
      have hnot : decide (start t + o < start s) = false := by simp; omega
      rw [List.findIdx_cons, hnot, cond_false, hfind o ho]

end Throne.Lib.Tiling
