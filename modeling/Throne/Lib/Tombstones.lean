import Mathlib.Data.Set.Basic
import Throne.Lib.Runs

/-!
# Stores that number their records and remember what they deleted

A store keeps records under ids it hands out from a growing counter. Beside the records there are
copies that still carry an id (a `View`): a copy may be written back long after the record is gone,
so the store marks deleted ids with a tombstone and refuses them. `Moves` says what one operation may
do to such a store. It composes (`Moves.trans`), so an operation made of several is judged part by
part, and a record that disappears along it never returns (`gone_of_vanished`, `Gone.moves`). A
restart of the process loses the tombstones, and the copies with them (`Forgets`).
-/

namespace Throne.Lib.Tombstones

open Lib.Runs

variable {ι : Type} [Preorder ι]

/-- What deletion depends on in a store: the ids with a record, the ids copies carry, the tombstones
and the last id handed out. -/
structure View (ι : Type) where
  stored : Set ι
  held : Set ι
  tombstones : Set ι
  lastId : ι

/-- Every id in use was handed out. -/
structure Issued (v : View ι) : Prop where
  stored : ∀ i ∈ v.stored, i ≤ v.lastId
  held : ∀ i ∈ v.held, i ≤ v.lastId

/-- What an operation may do. A copy gets an id from another copy, from a record or from the
counter; a record is written from a copy whose id has no tombstone, or under a new id; and a record
that goes away leaves its tombstone. -/
structure Moves (v w : View ι) : Prop where
  counter : v.lastId ≤ w.lastId
  tombstones : v.tombstones ⊆ w.tombstones
  held : ∀ i ∈ w.held, i ∈ v.held ∨ i ∈ v.stored ∨ (v.lastId < i ∧ i ≤ w.lastId)
  stored : ∀ i ∈ w.stored, i ∈ v.stored ∨ (i ∈ v.held ∧ i ∉ v.tombstones) ∨ (v.lastId < i ∧ i ≤ w.lastId)
  vanished : ∀ i ∈ v.stored, i ∉ w.stored → i ∈ w.tombstones

/-- What a restart does: the records and the counter stay, every copy is lost. -/
structure Forgets (v w : View ι) : Prop where
  counter : w.lastId = v.lastId
  stored : w.stored = v.stored
  held : w.held = ∅

/-- The id was handed out, has no record, and every copy that carries it is refused. -/
structure Gone (v : View ι) (i : ι) : Prop where
  issued : i ≤ v.lastId
  stored : i ∉ v.stored
  held : i ∈ v.held → i ∈ v.tombstones

theorem Moves.refl (v : View ι) : Moves v v where
  counter := le_refl _
  tombstones := subset_refl _
  held := fun _ hi => .inl hi
  stored := fun _ hi => .inl hi
  vanished := fun _ hi hnot => absurd hi hnot

variable {v w : View ι}

theorem Moves.trans {u : View ι} (h : Moves u v) (h' : Moves v w) : Moves u w where
  counter := le_trans h.counter h'.counter
  tombstones := subset_trans h.tombstones h'.tombstones
  held := by
    intro i hi
    rcases h'.held i hi with hv | hv | ⟨hlt, hle⟩
    · rcases h.held i hv with hu | hu | ⟨hlt, hle⟩
      · exact .inl hu
      · exact .inr (.inl hu)
      · exact .inr (.inr ⟨hlt, le_trans hle h'.counter⟩)
    · rcases h.stored i hv with hu | ⟨hu, -⟩ | ⟨hlt, hle⟩
      · exact .inr (.inl hu)
      · exact .inl hu
      · exact .inr (.inr ⟨hlt, le_trans hle h'.counter⟩)
    · exact .inr (.inr ⟨lt_of_le_of_lt h.counter hlt, hle⟩)
  stored := by
    intro i hi
    rcases h'.stored i hi with hv | ⟨hv, hnot⟩ | ⟨hlt, hle⟩
    · rcases h.stored i hv with hu | hu | ⟨hlt, hle⟩
      · exact .inl hu
      · exact .inr (.inl hu)
      · exact .inr (.inr ⟨hlt, le_trans hle h'.counter⟩)
    · -- A copy that may be written after the first part may be written before it.
      have hfree : i ∉ u.tombstones := fun hu => hnot (h.tombstones hu)
      rcases h.held i hv with hu | hu | ⟨hlt, hle⟩
      · exact .inr (.inl ⟨hu, hfree⟩)
      · exact .inl hu
      · exact .inr (.inr ⟨hlt, le_trans hle h'.counter⟩)
    · exact .inr (.inr ⟨lt_of_le_of_lt h.counter hlt, hle⟩)
  vanished := by
    intro i hi hnot
    by_cases hv : i ∈ v.stored
    · exact h'.vanished i hv hnot
    · exact h'.tombstones (h.vanished i hi hv)

theorem Issued.moves (hv : Issued v) (h : Moves v w) : Issued w where
  stored := by
    intro i hi
    rcases h.stored i hi with hs | ⟨hs, -⟩ | ⟨-, hle⟩
    · exact le_trans (hv.stored i hs) h.counter
    · exact le_trans (hv.held i hs) h.counter
    · exact hle
  held := by
    intro i hi
    rcases h.held i hi with hs | hs | ⟨-, hle⟩
    · exact le_trans (hv.held i hs) h.counter
    · exact le_trans (hv.stored i hs) h.counter
    · exact hle

/-- A record that disappears along an operation is gone. -/
theorem gone_of_vanished (hv : Issued v) (h : Moves v w) {i : ι} (hi : i ∈ v.stored) (hnot : i ∉ w.stored) : Gone w i where
  issued := le_trans (hv.stored i hi) h.counter
  stored := hnot
  held := fun _ => h.vanished i hi hnot

/-- What is gone stays gone. -/
theorem Gone.moves {i : ι} (hg : Gone v i) (h : Moves v w) : Gone w i where
  issued := le_trans hg.issued h.counter
  stored := by
    intro hi
    rcases h.stored i hi with hs | ⟨hheld, hfree⟩ | ⟨hlt, -⟩
    · exact hg.stored hs
    · exact hfree (hg.held hheld)
    · exact not_lt_of_ge hg.issued hlt
  held := by
    intro hi
    rcases h.held i hi with hs | hs | ⟨hlt, -⟩
    · exact h.tombstones (hg.held hs)
    · exact absurd hs hg.stored
    · exact absurd hlt (not_lt_of_ge hg.issued)

theorem Gone.forgets {i : ι} (hg : Gone v i) (h : Forgets v w) : Gone w i where
  issued := by
    rw [h.counter]
    exact hg.issued
  stored := by
    rw [h.stored]
    exact hg.stored
  held := by
    intro hi
    rw [h.held] at hi
    exact absurd hi (Set.notMem_empty i)

/-! ## Runs -/

section Run

variable {σ ε : Type} {step : σ → ε → σ} {view : σ → View ι} {Inv : σ → Prop}

/-- What is gone in one state of a run is gone at its end. -/
theorem Gone.run (hstep : ∀ s e, Inv s → Inv (step s e) ∧ (Moves (view s) (view (step s e)) ∨ Forgets (view s) (view (step s e))))
    {i : ι} (es : List ε) (s : σ) (hs : Inv s) (hg : Gone (view s) i) : Gone (view (run step s es)) i := by
  induction es generalizing s with
  | nil => exact hg
  | cons e es ih =>
    obtain ⟨hinv, hmoves⟩ := hstep s e hs
    have hnext : Gone (view (step s e)) i := by
      rcases hmoves with h | h
      · exact hg.moves h
      · exact hg.forgets h
    exact ih (step s e) hinv hnext

/-- A record that is there in one state of a run and no more in a later one is gone in that one. -/
theorem gone_run (view : σ → View ι) (hissued : ∀ s, Inv s → Issued (view s)) (hstep : ∀ s e, Inv s → Inv (step s e) ∧
    (Moves (view s) (view (step s e)) ∨ Forgets (view s) (view (step s e))))
    {i : ι} (es : List ε) (s : σ) (hs : Inv s) (hi : i ∈ (view s).stored)
    (hnot : i ∉ (view (run step s es)).stored) : Gone (view (run step s es)) i := by
  induction es generalizing s with
  | nil => exact absurd hi hnot
  | cons e es ih =>
    obtain ⟨hinv, hmoves⟩ := hstep s e hs
    by_cases hnext : i ∈ (view (step s e)).stored
    · exact ih (step s e) hinv hnext hnot
    -- The record disappears here, so this is not the restart.
    · rcases hmoves with h | h
      · exact (gone_of_vanished (hissued s hs) h hi hnext).run hstep es (step s e) hinv
      · rw [h.stored] at hnext
        exact absurd hi hnext

/-- The counter never goes back. -/
theorem counter_run (view : σ → View ι) (hstep : ∀ s e, Inv s → Inv (step s e) ∧
    (Moves (view s) (view (step s e)) ∨ Forgets (view s) (view (step s e))))
    (es : List ε) (s : σ) (hs : Inv s) : (view s).lastId ≤ (view (run step s es)).lastId := by
  induction es generalizing s with
  | nil => exact le_refl _
  | cons e es ih =>
    obtain ⟨hinv, hmoves⟩ := hstep s e hs
    refine le_trans ?_ (ih (step s e) hinv)
    rcases hmoves with h | h
    · exact h.counter
    · exact h.counter.ge

end Run

end Throne.Lib.Tombstones
