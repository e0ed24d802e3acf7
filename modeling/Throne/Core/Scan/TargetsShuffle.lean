import Throne.Core.Scan.TargetsExact

/-!
# Shuffling only reorders

The order mixer permutes a power of two that holds every position, so walking its cycle from a position comes
back below the total, and no two positions meet. Shuffled and unshuffled, a specification gives the same
targets as often (`shuffle_reorders`).
-/

namespace Throne.Core.Scan

open Lib.Permutation

/-! ## The layout -/

/-- The entries are laid out the same whether they are shuffled or not. -/
theorem addEntry_shuffle (net : Netip) (spec : Spec) (t : Targets) (entry : Entry) (b : Bool) :
    addEntry net { spec with shuffle := b } { t with shuffle := b } entry =
      { addEntry net spec t entry with shuffle := b } := by
  have hvalid : validEntry net { spec with shuffle := b } entry = validEntry net spec entry := rfl
  have hlimit : ({ spec with shuffle := b } : Spec).limit = spec.limit := rfl
  rw [addEntry, addEntry, hvalid, hlimit]
  cases validEntry net spec entry with
  | none => rfl
  | some e =>
    simp only
    split <;> rfl

theorem foldl_addEntry_shuffle (net : Netip) (spec : Spec) (b : Bool) (entries : List Entry) :
    ∀ t : Targets, entries.foldl (addEntry net { spec with shuffle := b }) { t with shuffle := b } =
      { entries.foldl (addEntry net spec) t with shuffle := b } := by
  induction entries with
  | nil => exact fun _ => rfl
  | cons entry entries ih =>
    intro t
    rw [List.foldl_cons, List.foldl_cons, addEntry_shuffle]
    exact ih (addEntry net spec t entry)

theorem newTargets_shuffle (net : Netip) (spec : Spec) (b : Bool) :
    NewTargets net { spec with shuffle := b } = { NewTargets net spec with shuffle := b } := by
  have hfold := foldl_addEntry_shuffle net spec b spec.entries ⟨[], 0, spec.shuffle, Mixer.zero, 0, 0⟩
  unfold NewTargets
  simp only [hfold]
  split <;> rfl

/-! ## The targets -/

/-- The targets of all positions, in order. -/
def Targets.all (t : Targets) : List (Option Target) := (List.range t.total).map t.At

theorem shuffle_reorders (net : Netip) (spec : Spec) : (∀ p, p < (NewTargets net spec).total →
      ∃ q, (NewTargets net spec).permute p = some q ∧ q < (NewTargets net spec).total) ∧
    (∀ q, q < (NewTargets net spec).total → ∃! p, p < (NewTargets net spec).total ∧ (NewTargets net spec).permute p = some q) ∧
    (NewTargets net { spec with shuffle := true }).total =
      (NewTargets net { spec with shuffle := false }).total ∧
    (NewTargets net { spec with shuffle := true }).all.Perm
      (NewTargets net { spec with shuffle := false }).all := by
  obtain ⟨hdefined, hinj⟩ := permute_facts net spec
  -- The walk as a function of the position.
  have hperm : PermBelow (NewTargets net spec).total fun p => ((NewTargets net spec).permute p).getD 0 := by
    refine ⟨?_, ?_⟩
    · intro p hp
      obtain ⟨q, hq, hlt⟩ := hdefined p hp
      rw [hq]
      exact hlt
    · intro p p' hp hp' heq
      obtain ⟨q, hq, -⟩ := hdefined p hp
      obtain ⟨q', hq', -⟩ := hdefined p' hp'
      simp only [hq, hq', Option.getD_some] at heq
      exact hinj p p' hp hp' (by rw [hq, hq', heq])
  refine ⟨hdefined, ?_, ?_, ?_⟩
  · intro q hq
    obtain ⟨p, hp, hpq⟩ := hperm.surj hq
    obtain ⟨q', hq', -⟩ := hdefined p hp
    simp only [hq', Option.getD_some] at hpq
    rw [hpq] at hq'
    refine ⟨p, ⟨hp, hq'⟩, ?_⟩
    rintro p' ⟨hp', hpq'⟩
    exact hinj p' p hp' hp (hpq'.trans hq'.symm)
  · rw [newTargets_shuffle net spec true, newTargets_shuffle net spec false]
  · rw [newTargets_shuffle net spec true, newTargets_shuffle net spec false]
    generalize NewTargets net spec = t at *
    have hshuffled : (List.range t.total).map ({ t with shuffle := true } : Targets).At =
        ((List.range t.total).map fun p => (t.permute p).getD 0).map fun g => (t.locate g).map (·.2) := by
      rw [List.map_map]
      apply List.map_congr_left
      intro p hp
      obtain ⟨q, hq, -⟩ := hdefined p (List.mem_range.1 hp)
      have hpermute : ({ t with shuffle := true } : Targets).permute p = some q := hq
      simp only [Targets.At, Targets.at?, if_true, hpermute, Option.bind_some, Function.comp_apply, hq, Option.getD_some]
      rfl
    have hplain : (List.range t.total).map ({ t with shuffle := false } : Targets).At =
        (List.range t.total).map fun g => (t.locate g).map (·.2) := rfl
    rw [Targets.all, Targets.all]
    show ((List.range t.total).map ({ t with shuffle := true } : Targets).At).Perm
      ((List.range t.total).map ({ t with shuffle := false } : Targets).At)
    rw [hshuffled, hplain]
    exact hperm.map_range_perm.map _

end Throne.Core.Scan
