import Mathlib.Tactic
import Throne.Configs.Sub.RouteRefresh

/-!
# What a refresh of routing profiles leaves of the user's work

`Ledger.Safe` says that the table holds what the user's operations left: a deleted profile has no row,
and a profile that is there has every field a refresh does not replace. The operations of the user keep
it by the frame lemmas below. Of the steps of a refresh only its save writes a row, from an object that
may be older than the row: `save_safe_iff` says exactly which saves keep it, those of an object that is
`Current`, and `refresh_keeps` carries that along runs.
-/

namespace Throne.Configs.Sub.RouteUpdate

open Lib.Texts Lib.Runs Database.Routes List

/-! ## Kept fields -/

theorem Kept.holds_kept (p : RouteProfile) : (kept p).Holds p := ⟨rfl, .inl rfl⟩

/-! ## What the user's operations leave alone -/

variable {ptr : Nat}

section Frames

variable {r : RoutesRepo} {id : Int}

theorem row_Save (h : id ∉ savedId r ptr) : (r.Save ptr).row id = r.row id := by
  cases hp : r.objects[ptr]? with
  | none => rw [RoutesRepo.Save, hp]
  | some p =>
    by_cases hneg : p.id < 0
    · rw [RoutesRepo.Save, hp]
      simp only [hneg, if_true]
    · refine RoutesRepo.row_Save_other fun q hq heq => h ?_
      rw [hp] at hq
      cases hq
      simp [savedId, hp, ← heq, not_lt.1 hneg]

theorem row_AddRouteProfile (h : id ∉ addedId r ptr) : (r.AddRouteProfile ptr).row id = r.row id := by
  rw [RoutesRepo.AddRouteProfile]
  cases hp : r.objects[ptr]? with
  | none => rfl
  | some p =>
    by_cases hid : 0 ≤ p.id
    · simp only [hid, if_true]
    · simp only [hid, if_false]
      refine RoutesRepo.row_Save_other fun q hq heq => h ?_
      -- The object saved is the numbered one.
      rw [RoutesRepo.number_objects, hp] at hq
      cases hq
      simp only [addedId, hp, hid, if_false, mem_singleton]
      exact heq.symm

theorem row_forget {ids : List Int} (h : id ∉ ids) : (r.forget ids).row id = r.row id := by
  simp only [RoutesRepo.forget, RoutesRepo.row, find?_filter]
  congr 1
  funext p
  by_cases hid : p.id = id
  · simp [hid, h]
  · simp [hid]

theorem row_DeleteRouteProfiles {ids : List Int} (h : id ∉ deletedIds r ids) : (r.DeleteRouteProfiles ids).row id = r.row id := by
  have hids : id ∉ ids := by
    intro hid
    apply h
    rw [deletedIds]
    split
    · exact mem_append_left _ hid
    · exact hid
  rw [RoutesRepo.DeleteRouteProfiles]
  split
  · rfl
  · refine Eq.trans ?_ (row_forget hids)
    rw [RoutesRepo.forgetDeleted]
    split
    · rename_i hcurrent
      split
      · rfl
      · -- The table is empty, and the default profile gets the next id.
        rename_i hhead
        have hempty : (r.forget ids).rows = [] := List.Perm.nil_eq ((head?_eq_none_iff.1 hhead) ▸ perm_insertionSort _ _) |>.symm
        have hnew : id ≠ r.lastId + 1 := by
          intro hid
          apply h
          rw [deletedIds, if_pos]
          · rw [hid]
            exact mem_append_right _ mem_cons_self
          · simp only [Bool.and_eq_true]
            exact ⟨hcurrent, by rw [hempty]; rfl⟩
        refine row_AddRouteProfile (r := (r.forget ids).make RouteProfile.GetDefaultChain) ?_
        simp only [addedId, RoutesRepo.make, getElem?_concat_length]
        intro hmem
        exact hnew (mem_singleton.1 hmem)
    · rfl

theorem row_saveListed {ptrs : List Nat} (h : id ∉ (r.saveListed ptrs).1) : (r.saveListed ptrs).2.row id = r.row id := by
  induction ptrs generalizing r with
  | nil => rfl
  | cons ptr ptrs ih =>
    rw [RoutesRepo.saveListed] at h ⊢
    cases hp : r.objects[ptr]? with
    | none =>
      simp only [hp] at h ⊢
      exact ih h
    | some p =>
      simp only [hp, mem_cons, not_or] at h ⊢
      refine (ih h.2).trans ?_
      by_cases hid : p.id < 0
      · simp only [hid, if_true] at h ⊢
        refine RoutesRepo.row_Save_other fun q hq heq => h.1 ?_
        rw [RoutesRepo.number_objects, hp] at hq
        cases hq
        exact heq.symm
      · simp only [hid, if_false] at h ⊢
        refine RoutesRepo.row_Save_other fun q hq heq => h.1 ?_
        rw [hp] at hq
        cases hq
        exact heq.symm

end Frames

/-- The event is the save of a refresh. -/
def Event.isSave : Event → Prop
  | .save _ => True
  | _ => False

variable {s : State}

theorem row_update {id other : Int} {f : RouteProfile → RouteProfile} (h : other ∉ (Event.update id f).writes s) :
    (s.update id f).repo.row other = s.repo.row other := by
  rw [State.update]
  have hrow := RoutesRepo.row_GetRouteProfile (r := s.repo) id other
  simp only [Event.writes] at h
  cases hget : s.repo.GetRouteProfile id with
  | mk ptr repo =>
    rw [hget] at hrow h
    cases ptr with
    | none => exact hrow
    | some ptr =>
      cases hp : repo.objects[ptr]? with
      | none =>
        simp only [hp]
        exact hrow
      | some stored =>
        simp only [hp]
        refine Eq.trans ?_ hrow
        refine row_Save (r := repo.make { f stored with id := stored.id }) fun hmem => h ?_
        -- The copy carries the id of what it was copied from.
        simp only [savedId, RoutesRepo.make, getElem?_concat_length, Option.toList_some, map_cons, map_nil] at hmem
        simp only [Option.toList_some, flatMap_cons, flatMap_nil, append_nil, savedId, hp, map_cons, map_nil]
        exact hmem

/-- A row that an event does not write, and no refresh saves, is as before. -/
theorem row_step {e : Event} {id : Int} (he : ¬e.isSave) (h : id ∉ e.writes s) : (step s e).repo.row id = s.repo.row id := by
  cases e with
  | save k => exact absurd trivial he
  | list onlyAllowed => exact RoutesRepo.row_GetAllRouteProfiles id
  | look k =>
    rw [step, State.look]
    split
    · rfl
    · split <;> rfl
  | answer k fetched servers now =>
    rw [step, State.answer]
    split
    · rfl
    · split
      · rfl
      · split <;> rfl
  | getRoute other => exact RoutesRepo.row_GetRouteProfile other id
  | expire other | copyRoute ptr f =>
    rw [step]
    split <;> rfl
  | makeRoute p | editRoute ptr f | setCurrentRoute other => rfl
  | addRoute ptr => exact row_AddRouteProfile h
  | saveRoute ptr => exact row_Save h
  | update other f => exact row_update h
  | updateRouteProfiles ptrs removedIds =>
    have hmem : id ∉ (s.repo.saveListed ptrs).1 ∧ id ∉ deletedIds (s.repo.saveListed ptrs).2
        (RoutesRepo.doomed (s.repo.saveListed ptrs).1 removedIds) := by
      simpa only [Event.writes, mem_append, not_or] using h
    exact (row_DeleteRouteProfiles hmem.2).trans (row_saveListed hmem.1)
  | deleteRouteProfiles ids => exact row_DeleteRouteProfiles h

/-! ## The table and the ledger -/

/-- The table holds what the user's operations left: no row of a deleted profile, and every other
profile with its kept fields. -/
structure Ledger.Safe (l : Ledger) : Prop where
  deleted : ∀ id, l.given id = none → l.state.repo.row id = none
  edited : ∀ id k, l.given id = some k → ∃ p, l.state.repo.row id = some p ∧ k.Holds p

/-- The object that the refresh `k` is about to write. -/
def State.saving (s : State) (k : Nat) : Option RouteProfile :=
  ((s.at k .replaced).map fun x => x.2.2).filter fun p => decide (0 ≤ p.id)

/-- The name the user gave last is blank. -/
def blankName (given : Option Kept) : Prop :=
  match given with
  | some k => trimmed k.name = []
  | none => False

instance (given : Option Kept) : Decidable (blankName given) := by
  unfold blankName
  split <;> infer_instance

/-- The object is not older than its row: the profile was not deleted, and the row has the kept fields
the object has. A name the user left blank is a refresh's to fill in. -/
def Fresh (l : Ledger) (p : RouteProfile) : Prop :=
  match l.state.repo.row p.id with
  | some row =>
    { kept p with name := row.name } = kept row ∧ (p.name = row.name ∨ blankName (l.given p.id))
  | none => False

instance (l : Ledger) (p : RouteProfile) : Decidable (Fresh l p) := by
  unfold Fresh
  split <;> infer_instance

/-- What a save of a refresh has to meet: the object it is about to write is not older than its row.
-/
def Current (l : Ledger) : Event → Prop
  | .save k => ∀ p ∈ l.state.saving k, Fresh l p
  | _ => True

/-- The object a refresh works on, where it works on one. -/
theorem objects_of_at {k : Nat} {stage : Stage} {refresh : Refresh}
    {p : RouteProfile} (h : s.at k stage = some (refresh, ptr, p)) : s.repo.objects[ptr]? = some p := by
  rw [State.at] at h
  split at h
  · cases h
  · split at h
    · split at h
      · cases h
      · obtain ⟨q, hq, heq⟩ := Option.map_eq_some_iff.1 h
        cases heq
        exact hq
    · cases h

/-- The rows after a save of a refresh. -/
theorem row_save (s : State) (k : Nat) (id : Int) : (s.save k).repo.row id = match s.saving k with
      | some p => if p.id = id then some p else s.repo.row id
      | none => s.repo.row id := by
  rw [State.save, State.saving]
  cases hat : s.at k .replaced with
  | none => rfl
  | some x =>
    obtain ⟨refresh, ptr, p⟩ := x
    have hp := objects_of_at hat
    by_cases hneg : p.id < 0
    · -- `Save` refuses it.
      have hsaving : Option.filter (fun p : RouteProfile => decide (0 ≤ p.id)) (some p) = none := by
        simp [hneg]
      simp only [Option.map_some, hsaving]
      have hrefused : s.repo.Save ptr = s.repo := by
        rw [RoutesRepo.Save, hp]
        simp only [hneg, if_true]
      rw [hrefused]
      rfl
    · have hsaving : Option.filter (fun p : RouteProfile => decide (0 ≤ p.id)) (some p) = some p := by
        simp [not_lt.1 hneg]
      simp only [Option.map_some, hsaving]
      by_cases hid : p.id = id
      · subst hid
        simp only [if_true]
        exact RoutesRepo.row_Save_self hp (not_lt.1 hneg)
      · simp only [hid, if_false]
        refine RoutesRepo.row_Save_other fun q hq => ?_
        rw [hp] at hq
        cases hq
        exact hid

variable {l : Ledger}

/-- What the user's operations do is what the ledger says. -/
theorem Ledger.Safe.step_user (hl : l.Safe) {e : Event} (he : ¬e.isSave) : (l.step e).Safe := by
  have hother : ∀ id, id ∉ e.writes l.state → (l.step e).given id = l.given id ∧ (l.step e).state.repo.row id = l.state.repo.row id := by
    intro id hid
    exact ⟨by simp [Ledger.step, hid], row_step he hid⟩
  have hwritten : ∀ id, id ∈ e.writes l.state → (l.step e).given id = ((l.step e).state.repo.row id).map kept := by
    intro id hid
    simp [Ledger.step, hid]
  constructor
  · intro id hgiven
    by_cases hid : id ∈ e.writes l.state
    · rw [hwritten id hid] at hgiven
      exact Option.map_eq_none_iff.1 hgiven
    · obtain ⟨hg, hrow⟩ := hother id hid
      rw [hrow]
      exact hl.deleted id (hg ▸ hgiven)
  · intro id k hgiven
    by_cases hid : id ∈ e.writes l.state
    · rw [hwritten id hid] at hgiven
      obtain ⟨p, hp, rfl⟩ := Option.map_eq_some_iff.1 hgiven
      exact ⟨p, hp, Kept.holds_kept p⟩
    · obtain ⟨hg, hrow⟩ := hother id hid
      rw [hrow]
      exact hl.edited id k (hg ▸ hgiven)

/-- Over a table that is as the user left it, a refresh may save an object exactly when the object is
not older than its row. -/
theorem fresh_iff (hl : l.Safe) (p : RouteProfile) : Fresh l p ↔ ∃ k, l.given p.id = some k ∧ k.Holds p := by
  rw [Fresh]
  cases hrow : l.state.repo.row p.id with
  | none =>
    simp only [false_iff]
    rintro ⟨k, hk, -⟩
    obtain ⟨row, hsome, -⟩ := hl.edited p.id k hk
    rw [hrow] at hsome
    cases hsome
  | some row =>
    -- There is a row, so the user left one.
    obtain ⟨k, hk⟩ : ∃ k, l.given p.id = some k := by
      rcases hgiven : l.given p.id with _ | k
      · have hnone := hl.deleted p.id hgiven
        rw [hrow] at hnone
        cases hnone
      · exact ⟨k, rfl⟩
    obtain ⟨row', hsome, hfields, hname⟩ := hl.edited p.id k hk
    rw [hrow] at hsome
    cases hsome
    simp only [hk, blankName, Option.some.injEq, exists_eq_left']
    constructor
    · rintro ⟨hsame, hpname⟩
      constructor
      · have h := congrArg (fun kept : Kept => { kept with name := k.name }) hsame
        exact h.trans hfields
      · rcases hpname with hpname | hblank
        · exact hname.imp_left fun h => hpname.trans h
        · exact .inr hblank
    · rintro ⟨hpfields, hpname⟩
      constructor
      · have h := congrArg (fun kept : Kept => { kept with name := row.name }) (hpfields.trans hfields.symm)
        exact h
      · rcases hpname with hpname | hblank
        · rcases hname with hname | hblank
          · exact .inl (hpname.trans hname.symm)
          · exact .inr hblank
        · exact .inr hblank

/-- The step lemma of a refresh: a save leaves the table as the user left it exactly when its object is
not older than the row. -/
theorem save_safe_iff (hl : l.Safe) (k : Nat) : (l.step (.save k)).Safe ↔ Current l (.save k) := by
  have hgiven : (l.step (.save k)).given = l.given := by
    funext id
    simp [Ledger.step, Event.writes]
  have hrow : ∀ id, (l.step (.save k)).state.repo.row id = (l.state.save k).repo.row id :=
    fun _ => rfl
  constructor
  · intro hsafe p hp
    rw [fresh_iff hl]
    have hsaved : (l.step (.save k)).state.repo.row p.id = some p := by
      rw [hrow, row_save, Option.mem_def.1 hp]
      simp only [if_true]
    rcases hk : l.given p.id with _ | kept
    · have hnone := hsafe.deleted p.id (by rw [hgiven]; exact hk)
      rw [hsaved] at hnone
      cases hnone
    · obtain ⟨q, hq, hholds⟩ := hsafe.edited p.id kept (by rw [hgiven]; exact hk)
      rw [hsaved] at hq
      cases hq
      exact ⟨kept, rfl, hholds⟩
  · intro hcurrent
    constructor
    · intro id hnone
      rw [hgiven] at hnone
      rw [hrow, row_save]
      cases hp : l.state.saving k with
      | none => exact hl.deleted id hnone
      | some p =>
        -- A deleted profile has no fresh object.
        have hid : p.id ≠ id := by
          intro hid
          obtain ⟨kept, hkept, -⟩ := (fresh_iff hl p).1 (hcurrent p hp)
          rw [hid, hnone] at hkept
          cases hkept
        simp only [hid, if_false]
        exact hl.deleted id hnone
    · intro id kept hkept
      rw [hgiven] at hkept
      rw [hrow, row_save]
      cases hp : l.state.saving k with
      | none => exact hl.edited id kept hkept
      | some p =>
        by_cases hid : p.id = id
        · subst hid
          obtain ⟨kept', hkept', hholds⟩ := (fresh_iff hl p).1 (hcurrent p hp)
          rw [hkept] at hkept'
          cases hkept'
          exact ⟨p, by simp only [if_true], hholds⟩
        · simp only [hid, if_false]
          exact hl.edited id kept hkept

theorem step_safe_iff (hl : l.Safe) (e : Event) : Current l e ↔ (l.step e).Safe := by
  cases e with
  | save k => exact (save_safe_iff hl k).symm
  | _ => exact iff_of_true trivial (hl.step_user fun h => h)

theorem opened_safe (rows : List RouteProfile) (lastId current_route_id : Int) : (Ledger.opened rows lastId current_route_id).Safe where
  deleted := by
    intro id h
    exact Option.map_eq_none_iff.1 h
  edited := by
    intro id k h
    obtain ⟨p, hp, rfl⟩ := Option.map_eq_some_iff.1 h
    exact ⟨p, hp, Kept.holds_kept p⟩

/-- Along every run of refreshes and operations of the user the table stays as the user left it if and
only if no refresh saves an object that is older than its row. -/
theorem refresh_keeps_iff (rows : List RouteProfile) (lastId current_route_id : Int) (es : List Event) :
    Along Ledger.step (fun l e => (l.step e).Safe) (Ledger.opened rows lastId current_route_id) es ↔
    Along Ledger.step Current (Ledger.opened rows lastId current_route_id) es := by
  have hstep : ∀ (l : Ledger) (e : Event), l.Safe → Current l e → (l.step e).Safe :=
    fun l e hl h => (step_safe_iff hl e).1 h
  apply Iff.symm
  exact along_iff hstep (fun l e hl => step_safe_iff hl e) es _ (opened_safe rows lastId current_route_id)

/-- Two profiles, one of them remote. -/
def remoteAndLocal : Ledger :=
  Ledger.opened [{ RouteProfile.default with
        id := 1
        name := "feed".toList
        isRemote := true
        remoteURL := "https://a/feed".toList },
      { RouteProfile.GetDefaultChain with id := 2 }] 2 2

/-- A refresh of both profiles whose answer for the first one arrives after `between`. -/
def refreshAround (between : Event) : List Event :=
  [.list false, .look 0, between, .answer 0 (some RouteProfile.GetDefaultChain) ⟨fun _ => [], fun _ => none⟩ 1700000000, .save 0]

/-- The run in which the first profile is deleted while its refresh waits. -/
def deletedInFlight : Ledger := run Ledger.step remoteAndLocal (refreshAround (.deleteRouteProfiles [1]))

/-- The run in which an edit of it is saved meanwhile through `RouteService::Update`. -/
def editedInFlight : Ledger :=
  run Ledger.step remoteAndLocal (refreshAround (.update 1 fun p =>
    { p with name := "home".toList, remoteURL := "https://b/feed".toList }))

/-- The deleted profile has a row again, and the edited one has its old name and remote URL. -/
theorem refresh_resurrects_and_overwrites : (deletedInFlight.given 1 = none ∧ (deletedInFlight.state.repo.row 1).map (·.name) = some "feed".toList) ∧
    ((editedInFlight.given 1).map (fun k => (k.name, k.remoteURL)) = some ("home".toList, "https://b/feed".toList) ∧
    (editedInFlight.state.repo.row 1).map (fun p => (p.name, p.remoteURL)) = some ("feed".toList, "https://a/feed".toList)) := by
  decide

end Throne.Configs.Sub.RouteUpdate
