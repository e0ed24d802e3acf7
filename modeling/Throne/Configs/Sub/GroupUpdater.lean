import Throne.Database.Repos

/-!
# Applying a subscription refresh

`src/src/configs/sub/GroupUpdater.cpp`, `refresh` and `applyRefresh` up to the end of the
transaction that deletes the doomed profiles and inserts the new ones, with `deleteProfiles` and
`ImportSink`. What follows an applied transaction (the reconcile of the survivors) is not part of
this module; a refresh whose transaction fails returns right after it.

The comment above the transaction says what it is for: deletion and insertion as one, so that a
refresh that does not come through leaves the subscription as it was. `AllOrNothing` states that
for the rows and for what the process keeps beside them. The rows come back
(`transaction_rollback`); the tombstones, the listings and the retired id do not
(`refresh_allOrNothing_iff`).
-/

namespace Throne.Configs.Sub

open Database List

/-! ## Deleting -/

/-- `DeleteOutcome`. -/
structure DeleteOutcome where
  ok : Bool
  deleted : List Int
  kept : List Int
  retired : Int

/-- `deleteProfiles`: the running profile is not deleted but taken out of its group. `none` when an
exception leaves it. -/
def deleteProfiles (env : Faults) (depth : Nat) (ids : List Int) (s : Store) : Store × Option DeleteOutcome :=
  let startedId := s.startedId
  match batchDeleteProfiles env depth ids s with
  | (s1, _, .threw) => (s1, none)
  | (s1, deleted, .returned ok) =>
    let kept := ids.filter fun id => !deleted.contains id
    if ok && ids.contains startedId && !deleted.contains startedId then
      (s1.retireProfile startedId, some ⟨ok, deleted, kept, startedId⟩)
    else (s1, some ⟨ok, deleted, kept, NoProfileId⟩)

/-! ## The import sink -/

/-- `ImportSink`, deferred: `index` holds the old profiles nobody has claimed yet, in group order
(`none` for a clean import), `chunk` the arrivals that need a row. -/
structure ImportSink where
  index : Option (List Profile)
  chunk : List Profile

/-- `ContentIndex::claim`: the first unclaimed profile with that content, taken out. -/
def claim (content : String) : List Profile → Option (List Profile)
  | [] => none
  | p :: ps => if p.content == content then some ps else (claim content ps).map (p :: ·)

/-- `ImportSink::add`. -/
def ImportSink.add (sink : ImportSink) (ent : Profile) : ImportSink :=
  match sink.index with
  | none => { sink with chunk := sink.chunk ++ [ent] }
  | some unclaimed =>
    match claim ent.content unclaimed with
    | some rest => { sink with index := some rest }
    | none => { sink with chunk := sink.chunk ++ [ent] }

/-- `ImportSink::flush`. -/
def ImportSink.flush (env : Faults) (sink : ImportSink) (gid : Int) (s : Store) : Store × Ending :=
  if sink.chunk.isEmpty then (s, .returned true) else addProfileBatch env sink.chunk gid s

/-! ## The refresh -/

/-- The listed profiles of a group without its auto selectors. -/
def members (s : Store) (group : Group) : List Int :=
  group.profiles.filter fun id => !(s.getProfileIdsByType "autoselector").contains id

/-- The ids `sub_clear` dooms; with `keep_working` the working ones are spared. -/
def doomedProfiles (s : Store) (group : Group) : List Int :=
  if s.subClear then
    let doomed := members s group
    if group.keepWorking then
      let stillWorking := ((s.getProfileBatch doomed).filter (·.isWorking)).map (·.id)
      doomed.filter fun id => !stillWorking.contains id
    else doomed
  else []

/-- The sink after the document went through it. Nothing has been written yet. -/
def parsedSink (s : Store) (group : Group) (document : List Profile) : ImportSink :=
  let doomed := doomedProfiles s group
  let survivors := (members s group).filter fun id => !doomed.contains id
  let cleared := s.subClear && survivors.isEmpty
  let index := if cleared then none else some (s.getProfileBatch survivors)
  document.foldl ImportSink.add ⟨index, []⟩

/-- The body of the transaction. -/
def refreshBody (env : Faults) (doomed : List Int) (sink : ImportSink) (gid : Int) (s : Store) : Store × Ending :=
  if doomed.isEmpty then sink.flush env gid s
  else
    -- the transaction of the delete is nested in this one
    match deleteProfiles env 1 doomed s with
    | (s1, none) => (s1, .threw)
    | (s1, some outcome) => if outcome.ok then sink.flush env gid s1 else (s1, .returned false)

/-- What came down: the URL it was asked from and the profiles of the parsed document. -/
structure Download where
  url : String
  profiles : List Profile

/-- How far a refresh came. -/
inductive Result where
  | noGroup
  | urlChanged
  | empty
  | database
  | applied
  deriving DecidableEq

/-- `GroupUpdater::applyRefresh` to the end of its transaction. -/
def applyRefresh (env : Faults) (group : Group) (download : Download) (s : Store) : Store × Result :=
  if group.url != download.url then (s, .urlChanged)
  -- a document without a profile touches nothing
  else if download.profiles.isEmpty then (s, .empty)
  else
    let s := s.saveGroup group
    let doomed := doomedProfiles s group
    let sink := parsedSink s group download.profiles
    match transaction env 0 (refreshBody env doomed sink group.id) s with
    | (s1, .returned true) => (s1, .applied)
    | (s1, _) => (s1, .database)

/-- `GroupUpdater::refresh` after the download. -/
def refresh (env : Faults) (gid : Int) (download : Download) (s : Store) : Store × Result :=
  match s.getGroup gid with
  | none => (s, .noGroup)
  | some group => if group.archive then (s, .noGroup) else applyRefresh env group download s

/-! ## All or nothing -/

/-- The profile `p` is as it was: a row, listed once in its group if it was, and `Save` still
takes it if it did. -/
structure Kept (s s' : Store) (p : Profile) : Prop where
  row : p ∈ s'.tables.profiles
  listed : (s.listing p.gid).count p.id = 1 → (s'.listing p.gid).count p.id = 1
  saves : s.saves p.id = true → s'.saves p.id = true

/-- Nothing of the refresh is left: every profile is as it was, the profiles that exist stand in
every listing in the order they stood in, and nobody was retired. -/
structure AllOrNothing (s s' : Store) : Prop where
  kept : ∀ p ∈ s.tables.profiles, Kept s s' p
  order : ∀ gid, (s'.listing gid).filter s.stored = (s.listing gid).filter s.stored
  retired : s'.retiredProfileId = s.retiredProfileId

/-- The doomed profiles are out of memory already. A stored one that does not run is one `Save`
refuses and is listed in no group of a doomed profile; the running one is the retired one and is
not listed in its group. -/
structure AlreadyGone (s : Store) (doomed : List Int) : Prop where
  refused : ∀ id ∈ doomed, id ≠ s.startedId → s.stored id = true → s.saves id = false
  unlisted : ∀ id ∈ doomed, id ≠ s.startedId → s.stored id = true →
    ∀ other ∈ doomed, other ≠ s.startedId → ∀ ent, s.getProfile other = some ent → id ∉ s.listing ent.gid
  retired : s.startedId ∈ doomed → ∀ ent, s.getProfile s.startedId = some ent → s.retiredProfileId = s.startedId ∧
      (s.stored s.startedId = true → s.startedId ∉ s.listing ent.gid)

/-! ## The delete, in memory -/

/-- Whether deleting `doomed` takes `id` off the listing of `gid`: as one of the deleted ids, in
the group of a profile that was found, or as the running profile, in its group. -/
def takenOff (s : Store) (doomed : List Int) (gid id : Int) : Bool :=
  let ids := doomed.filter fun id => id != s.startedId
  (ids.contains id && ((s.getProfileBatch ids).map (·.gid)).contains gid) ||
    (doomed.contains s.startedId && id == s.startedId && (s.getProfile s.startedId).any fun ent => ent.gid == gid)

/-- What `deleteProfiles` leaves in memory when its `DELETE` goes through. -/
structure Deleted (s : Store) (doomed : List Int) (s1 : Store) : Prop where
  tombstones : s1.tombstones = s.tombstones ++ (s.getProfileBatch (doomed.filter fun id => id != s.startedId)).map (·.id)
  retired : s1.retiredProfileId = if doomed.contains s.startedId && (s.getProfile s.startedId).isSome
    then s.startedId else s.retiredProfileId
  profileLastId : s1.tables.profileLastId = s.tables.profileLastId
  listing : ∀ gid, s1.listing gid = (s.listing gid).filter fun id => !takenOff s doomed gid id
  backed : ∀ t, Backed t s → Backed t s1

variable {s : Store}

/-- The listings after `BatchDeleteProfiles` alone. -/
theorem listing_batchDelete {s1 : Store} {ids : List Int} (hget : ∀ gid, s1.getGroup gid = if gid ∈ (s.getProfileBatch ids).map (·.gid)
      then (s.getGroup gid).map (·.removeProfileBatch ids) else s.getGroup gid) (gid : Int) :
    s1.listing gid = (s.listing gid).filter fun id =>
      !(ids.contains id && ((s.getProfileBatch ids).map (·.gid)).contains gid) := by
  by_cases hgid : gid ∈ (s.getProfileBatch ids).map (·.gid)
  · rw [listing_remove ((hget gid).trans (if_pos hgid))]
    simp only [contains_iff_mem.2 hgid, Bool.and_true]
  · have hout : ((s.getProfileBatch ids).map (·.gid)).contains gid = false := by
      simpa using hgid
    rw [listing_congr ((hget gid).trans (if_neg hgid))]
    simp only [hout, Bool.and_false, Bool.not_false, filter_true]

variable {id : Int}

/-- The listings after `RetireProfile` alone. -/
theorem listing_retire {ent : Profile} (hent : s.getProfile id = some ent) (gid : Int) :
    (s.retireProfile id).listing gid = (s.listing gid).filter fun x => !(x == id && ent.gid == gid) := by
  obtain ⟨-, -, -, hget, -⟩ := retireProfile_spec s hent
  by_cases hgid : gid = ent.gid
  · rw [listing_remove ((hget gid).trans (if_pos hgid))]
    apply filter_congr
    intro x _
    by_cases hx : x = id
    · simp [hx, hgid]
    · simp [hx]
  · have hother : (ent.gid == gid) = false := by simpa using Ne.symm hgid
    rw [listing_congr ((hget gid).trans (if_neg hgid))]
    simp only [hother, Bool.and_false, Bool.not_false, filter_true]

variable {env : Faults}

theorem deleteProfiles_spec (hdeletes : env.deletes = .done) (doomed : List Int) (s : Store) :
    ∃ s1 outcome, deleteProfiles env 1 doomed s = (s1, some outcome) ∧ outcome.ok = true ∧ Deleted s doomed s1 := by
  generalize hids : doomed.filter (fun id => id != s.startedId) = ids
  obtain ⟨s1, hrun, htomb, hret, hlast, hget, hback, hprof⟩ :=
    batchDelete_spec hdeletes 0 doomed ids s hids
  have hstarted : s.startedId ∉ ids := by
    rw [← hids]
    simp
  have hnot : ids.contains s.startedId = false := by simpa using hstarted
  have hlisting := listing_batchDelete hget
  simp only [deleteProfiles, hrun, hnot, Bool.true_and, Bool.not_false, Bool.and_true]
  by_cases hrunning : s.startedId ∈ doomed
  · rw [if_pos (contains_iff_mem.2 hrunning)]
    refine ⟨_, _, rfl, rfl, ?_⟩
    rcases hent : s.getProfile s.startedId with _ | ent
    · -- nobody to retire
      have hsame : s1.retireProfile s.startedId = s1 := by
        simp only [Store.retireProfile, hprof s.startedId hstarted, hent]
      rw [hsame]
      refine ⟨by rw [htomb, hids], by simp [hret, hent], hlast, ?_, hback⟩
      intro gid
      rw [hlisting gid]
      simp only [takenOff, hids, hent, Option.any_none, Bool.and_false, Bool.or_false]
    · have hent1 : s1.getProfile s.startedId = some ent := (hprof s.startedId hstarted).trans hent
      obtain ⟨htomb', hret', hlast', -, hback'⟩ := retireProfile_spec s1 hent1
      refine ⟨by rw [htomb', htomb, hids], by simp [hret', hent, hrunning], hlast'.trans hlast, ?_, fun t h => hback' t (hback t h)⟩
      intro gid
      rw [listing_retire hent1, hlisting gid, filter_filter]
      congr 1
      funext id
      simp only [takenOff, hids, hent, Option.any_some, contains_iff_mem.2 hrunning, Bool.true_and, Bool.not_or]
      exact Bool.and_comm _ _
  · have hout : doomed.contains s.startedId = false := by simpa using hrunning
    rw [if_neg (by simp [hrunning])]
    refine ⟨_, _, rfl, rfl, by rw [htomb, hids], by simp [hret, hrunning], hlast, ?_, hback⟩
    intro gid
    rw [hlisting gid]
    simp only [takenOff, hids, hout, Bool.false_and, Bool.or_false]

/-- Without doomed profiles nothing is deleted. -/
theorem deleted_nil (s : Store) : Deleted s [] s := by
  refine ⟨?_, ?_, rfl, ?_, fun _ h => h⟩
  · simp [Store.getProfileBatch]
  · simp
  · intro gid
    simp [takenOff]

/-! ## The transaction, in memory -/

/-- What the body of the transaction leaves in memory, however it ends: the delete, and at most
new ids at the end of a listing. -/
theorem refreshBody_spec (hdeletes : env.deletes = .done) (doomed : List Int) (sink : ImportSink)
    (gid : Int) (s s1 : Store) (ending : Ending) (h : refreshBody env doomed sink gid s = (s1, ending)) :
    ∃ mid, Deleted s doomed mid ∧ s1.tombstones = mid.tombstones ∧ s1.retiredProfileId = mid.retiredProfileId ∧
    (∀ x, ∃ fresh, s1.listing x = mid.listing x ++ fresh ∧ ∀ id ∈ fresh, s.tables.profileLastId < id) ∧ (∀ t, Backed t s → Backed t s1) := by
  -- the store the flush starts from
  have hflush : ∃ mid, Deleted s doomed mid ∧ sink.flush env gid mid = (s1, ending) := by
    rw [refreshBody] at h
    by_cases hd : doomed = []
    · subst hd
      exact ⟨s, deleted_nil s, by simpa using h⟩
    · obtain ⟨mid, outcome, hrun, hok, hdeleted⟩ := deleteProfiles_spec hdeletes doomed s
      simp only [List.isEmpty_iff, hd, if_false, hrun, hok, if_true] at h
      exact ⟨mid, hdeleted, h⟩
  obtain ⟨mid, hdeleted, hrun⟩ := hflush
  refine ⟨mid, hdeleted, ?_⟩
  rw [ImportSink.flush] at hrun
  split at hrun
  · cases hrun
    exact ⟨rfl, rfl, fun x => ⟨[], by simp⟩, hdeleted.backed⟩
  · obtain ⟨htomb, hret, hlisting, hback⟩ := addProfileBatch_spec env _ gid mid s1 ending hrun
    rw [hdeleted.profileLastId] at hlisting
    exact ⟨htomb, hret, hlisting, fun t ht => hback t (hdeleted.backed t ht)⟩

/-! ## When a failed refresh leaves nothing behind -/

variable {gid : Int} {doomed : List Int}

theorem takenOff_iff : takenOff s doomed gid id = true ↔ (id ∈ doomed ∧ id ≠ s.startedId ∧
    ∃ other ∈ doomed, other ≠ s.startedId ∧ ∃ ent, s.getProfile other = some ent ∧ ent.gid = gid) ∨
    (s.startedId ∈ doomed ∧ id = s.startedId ∧ ∃ ent, s.getProfile s.startedId = some ent ∧ ent.gid = gid) := by
  simp only [takenOff, Bool.or_eq_true, Bool.and_eq_true, contains_iff_mem, mem_batch_gids,
    mem_filter, bne_iff_ne, beq_iff_eq, Option.any_eq_true, and_assoc]

/-- The existing profiles keep their order in a listing that lost the ids taken off and gained ids
that do not exist exactly when no existing one was taken off. -/
theorem order_kept_iff {fresh l : List Int} (hl : l = ((s.listing gid).filter fun id => !takenOff s doomed gid id) ++ fresh)
    (hfresh : ∀ id ∈ fresh, s.stored id = false) : l.filter s.stored = (s.listing gid).filter s.stored ↔
    ∀ id ∈ s.listing gid, s.stored id = true → takenOff s doomed gid id = false := by
  have hnone : fresh.filter s.stored = [] := by
    apply filter_eq_nil_iff.2
    intro id hid
    simp [hfresh id hid]
  rw [hl, filter_append, hnone, append_nil, filter_comm, filter_eq_self]
  constructor
  · intro h id hid hst
    simpa using h id (mem_filter.2 ⟨hid, hst⟩)
  · intro h id hid
    obtain ⟨hmem, hst⟩ := mem_filter.1 hid
    simp [h id hmem hst]

section Failed

variable {s s' : Store} {doomed : List Int} (hrows : s'.tables = s.tables)
  (htomb : s'.tombstones = s.tombstones ++ (s.getProfileBatch (doomed.filter fun id => id != s.startedId)).map (·.id))
  (hret : s'.retiredProfileId = if doomed.contains s.startedId && (s.getProfile s.startedId).isSome
    then s.startedId else s.retiredProfileId)
  (hlisting : ∀ gid, ∃ fresh, s'.listing gid = ((s.listing gid).filter fun id => !takenOff s doomed gid id) ++ fresh ∧
      ∀ id ∈ fresh, s.stored id = false)

include htomb in
/-- A found profile that was to be deleted can not be saved any more. -/
theorem saves_deleted (hid : id ∈ doomed) (hne : id ≠ s.startedId) (hst : s.stored id = true) : s'.saves id = false := by
  have hmem : id ∈ (s.getProfileBatch (doomed.filter fun id => id != s.startedId)).map (·.id) :=
    mem_batch_ids.2 ⟨mem_filter.2 ⟨hid, by simpa using hne⟩, getProfile_stored hst⟩
  have hin : s'.tombstones.contains id = true := by
    rw [htomb]
    exact contains_iff_mem.2 (mem_append_right _ hmem)
  rw [Store.saves, hin, Bool.not_true, Bool.and_false]

include htomb in
/-- Any other profile can be saved as before. -/
theorem saves_spared (h : id ∈ doomed → id = s.startedId) (hs : s.saves id = true) : s'.saves id = true := by
  have hout : id ∉ (s.getProfileBatch (doomed.filter fun id => id != s.startedId)).map (·.id) := by
    intro hmem
    obtain ⟨hid, -⟩ := mem_batch_ids.1 hmem
    obtain ⟨hid, hne⟩ := mem_filter.1 hid
    exact absurd (h hid) (by simpa using hne)
  rw [Store.saves, Bool.and_eq_true] at hs ⊢
  refine ⟨hs.1, ?_⟩
  rw [htomb]
  simpa [hout] using hs.2

include htomb hret hlisting in
theorem alreadyGone_of_allOrNothing (h : AllOrNothing s s') : AlreadyGone s doomed := by
  -- no existing profile was taken off any listing
  have hstay : ∀ gid, ∀ id ∈ s.listing gid, s.stored id = true → takenOff s doomed gid id = false := by
    intro gid
    obtain ⟨fresh, hl, hfresh⟩ := hlisting gid
    exact (order_kept_iff hl hfresh).1 (h.order gid)
  refine ⟨?_, ?_, ?_⟩
  · intro id hid hne hst
    obtain ⟨p, hp, rfl⟩ := stored_iff.1 hst
    by_contra hs
    have hafter := (h.kept p hp).saves (by simpa using hs)
    rw [saves_deleted htomb hid hne hst] at hafter
    cases hafter
  · intro id hid hne hst other hother hone ent hent hlisted
    have hoff : takenOff s doomed ent.gid id = true := takenOff_iff.2 (.inl ⟨hid, hne, other, hother, hone, ent, hent, rfl⟩)
    rw [hstay ent.gid id hlisted hst] at hoff
    cases hoff
  · intro hrunning ent hent
    refine ⟨?_, ?_⟩
    · have hretired := h.retired
      simp only [hret, contains_iff_mem.2 hrunning, hent, Option.isSome_some, Bool.and_true, if_true] at hretired
      exact hretired.symm
    · intro hst hlisted
      have hoff : takenOff s doomed ent.gid s.startedId = true := takenOff_iff.2 (.inr ⟨hrunning, rfl, ent, hent, rfl⟩)
      rw [hstay ent.gid s.startedId hlisted hst] at hoff
      cases hoff

include hrows htomb hret hlisting in
theorem allOrNothing_of_alreadyGone (h : AlreadyGone s doomed) : AllOrNothing s s' := by
  have hstay : ∀ gid, ∀ id ∈ s.listing gid, s.stored id = true → takenOff s doomed gid id = false := by
    intro gid id hlisted hst
    by_contra hoff
    rcases takenOff_iff.1 (by simpa using hoff) with
      ⟨hid, hne, other, hother, hone, ent, hent, rfl⟩ | ⟨hrunning, rfl, ent, hent, rfl⟩
    · exact h.unlisted id hid hne hst other hother hone ent hent hlisted
    · exact (h.retired hrunning ent hent).2 hst hlisted
  have horder : ∀ gid, (s'.listing gid).filter s.stored = (s.listing gid).filter s.stored := by
    intro gid
    obtain ⟨fresh, hl, hfresh⟩ := hlisting gid
    exact (order_kept_iff hl hfresh).2 (hstay gid)
  refine ⟨?_, horder, ?_⟩
  · intro p hp
    have hst : s.stored p.id = true := stored_iff.2 ⟨p, hp, rfl⟩
    refine ⟨by rw [hrows]; exact hp, ?_, ?_⟩
    · -- the count of a stored id is that of the listing of stored ids
      intro hone
      rw [← count_filter hst, horder, count_filter hst]
      exact hone
    · intro hs
      apply saves_spared htomb ?_ hs
      intro hid
      by_contra hne
      rw [h.refused p.id hid hne hst] at hs
      cases hs
  · rw [hret]
    split
    · next hcond =>
      simp only [Bool.and_eq_true, contains_iff_mem, Option.isSome_iff_exists] at hcond
      obtain ⟨hrunning, ent, hent⟩ := hcond
      exact ((h.retired hrunning ent hent).1).symm
    · rfl

end Failed

/-! ### The header of the group is saved before the transaction -/

variable {s' : Store}

section Header

variable {s : Store} {g : Group} (hg : s.getGroup g.id = some g)

include hg in
theorem listing_saveGroup : (s.saveGroup g).listing = s.listing :=
  funext fun gid => listing_congr (getGroup_saveGroup hg gid)

theorem stored_saveGroup : (s.saveGroup g).stored = s.stored := by
  funext id
  rw [Store.stored, (saveGroup_groupsOnly s g).profiles, Store.stored]

theorem saves_saveGroup : (s.saveGroup g).saves = s.saves := by
  funext id
  rw [Store.saves, (saveGroup_groupsOnly s g).tombstones, Store.saves]

theorem getProfile_saveGroup : (s.saveGroup g).getProfile = s.getProfile := funext (saveGroup_groupsOnly s g).getProfile

include hg in
theorem allOrNothing_saveGroup : AllOrNothing (s.saveGroup g) s' ↔ AllOrNothing s s' := by
  have honly := saveGroup_groupsOnly s g
  constructor
  · rintro ⟨hk, ho, hr⟩
    rw [honly.profiles] at hk
    rw [listing_saveGroup hg, stored_saveGroup] at ho
    rw [honly.retiredProfileId] at hr
    refine ⟨fun p hp => ?_, ho, hr⟩
    obtain ⟨h1, h2, h3⟩ := hk p hp
    exact ⟨h1, by rwa [listing_saveGroup hg] at h2, by rwa [saves_saveGroup] at h3⟩
  · rintro ⟨hk, ho, hr⟩
    refine ⟨fun p hp => ?_, ?_, hr.trans honly.retiredProfileId.symm⟩
    · rw [honly.profiles] at hp
      obtain ⟨h1, h2, h3⟩ := hk p hp
      exact ⟨h1, by rwa [listing_saveGroup hg], by rwa [saves_saveGroup]⟩
    · rw [listing_saveGroup hg, stored_saveGroup]
      exact ho

include hg in
theorem alreadyGone_saveGroup : AlreadyGone (s.saveGroup g) doomed ↔ AlreadyGone s doomed := by
  have honly := saveGroup_groupsOnly s g
  constructor
  · rintro ⟨h1, h2, h3⟩
    simp only [honly.startedId, honly.retiredProfileId, stored_saveGroup, saves_saveGroup, getProfile_saveGroup, listing_saveGroup hg] at h1 h2 h3
    exact ⟨h1, h2, h3⟩
  · rintro ⟨h1, h2, h3⟩
    constructor
    · simpa only [honly.startedId, stored_saveGroup, saves_saveGroup] using h1
    · simpa only [honly.startedId, stored_saveGroup, getProfile_saveGroup, listing_saveGroup hg] using h2
    · simpa only [honly.startedId, honly.retiredProfileId, stored_saveGroup, getProfile_saveGroup, listing_saveGroup hg] using h3

theorem doomedProfiles_saveGroup (group : Group) : doomedProfiles (s.saveGroup g) group = doomedProfiles s group := by
  have honly := saveGroup_groupsOnly s g
  simp only [doomedProfiles, members, Store.getProfileIdsByType, Store.getProfileBatch, honly.subClear, honly.profiles, getProfile_saveGroup]

end Header

/-- The transaction of a refresh that ends in a database error after the delete went through
leaves nothing behind exactly when the doomed profiles were gone from memory before. -/
theorem transaction_allOrNothing_iff (hbegins : env.begins = true) (hdeletes : env.deletes = .done) {sink : ImportSink} {ending : Ending}
    (hfails : ending ≠ .returned true) (hrun : transaction env 0 (refreshBody env doomed sink gid) s = (s', ending)) :
    AllOrNothing s s' ↔ AlreadyGone s doomed := by
  obtain ⟨s1, rfl, e, hbody⟩ := transaction_rollback hbegins hrun hfails
  obtain ⟨mid, hdeleted, htomb, hret, hgrown, hback⟩ :=
    refreshBody_spec hdeletes doomed sink gid s s1 e hbody
  have hbacked : Backed s.tables s1 := hback s.tables fun _ _ => rfl
  have htomb' := htomb.trans hdeleted.tombstones
  have hret' := hret.trans hdeleted.retired
  have hlisting : ∀ x, ∃ fresh, Store.listing { s1 with tables := s.tables } x = ((s.listing x).filter fun id => !takenOff s doomed x id) ++ fresh ∧
        ∀ id ∈ fresh, s.stored id = false := by
    intro x
    obtain ⟨fresh, hl, hfresh⟩ := hgrown x
    refine ⟨fresh, ?_, ?_⟩
    · rw [listing_congr (hbacked.getGroup_rollback x), hl, hdeleted.listing x]
    · -- an id above the counter has no row
      intro id hid
      by_contra hst
      obtain ⟨p, hp, rfl⟩ := stored_iff.1 (by simpa using hst)
      have hissued := s.tables.issued p hp
      have habove := hfresh p.id hid
      omega
  exact ⟨alreadyGone_of_allOrNothing htomb' hret' hlisting, allOrNothing_of_alreadyGone rfl htomb' hret' hlisting⟩

/-- A refresh that ends in a database error ends with its transaction. -/
theorem refresh_database {group : Group} {download : Download}
    (hgroup : s.getGroup gid = some group) (h : refresh env gid download s = (s', .database)) :
    ∃ ending, ending ≠ .returned true ∧ transaction env 0 (refreshBody env (doomedProfiles (s.saveGroup group) group)
    (parsedSink (s.saveGroup group) group download.profiles) group.id) (s.saveGroup group) = (s', ending) := by
  simp only [refresh, hgroup, applyRefresh] at h
  split_ifs at h
  -- the early returns name another result
  · simp at h
  · simp at h
  · simp at h
  · split at h
    · simp at h
    · next s1 ending hne heq =>
      cases h
      refine ⟨ending, ?_, heq⟩
      rintro rfl
      exact hne rfl

/-- For every group, every store and every document: a refresh whose transaction fails after the
delete went through leaves nothing behind exactly when the doomed profiles were gone from memory
before it. -/
theorem refresh_allOrNothing_iff (env : Faults) (gid : Int) (group : Group) (download : Download)
    (s s' : Store) (hgroup : s.getGroup gid = some group) (hbegins : env.begins = true)
    (hdeletes : env.deletes = .done) (hfailed : refresh env gid download s = (s', .database)) :
    AllOrNothing s s' ↔ AlreadyGone s (doomedProfiles s group) := by
  have hid : s.getGroup group.id = some group := by
    rw [getGroup_id hgroup]
    exact hgroup
  obtain ⟨ending, hfails, hrun⟩ := refresh_database hgroup hfailed
  rw [← allOrNothing_saveGroup hid, ← alreadyGone_saveGroup hid, ← doomedProfiles_saveGroup]
  exact transaction_allOrNothing_iff hbegins hdeletes hfails hrun

/-- Where the profiles a group lists belong to it, have a row and can be saved, being gone from
memory means not to exist: the failed refresh of such a group leaves nothing behind exactly when it
dooms no profile that exists. -/
theorem alreadyGone_iff_notFound (hlisted : ∀ id ∈ doomed, id ∈ s.listing gid)
    (hown : ∀ id ∈ s.listing gid, ∀ ent, s.getProfile id = some ent → ent.gid = gid ∧ s.stored id = true ∧ s.saves id = true) :
    AlreadyGone s doomed ↔ ∀ id ∈ doomed, s.getProfile id = none := by
  constructor
  · intro h id hid
    by_contra hfound
    obtain ⟨ent, hent⟩ := Option.ne_none_iff_exists'.1 hfound
    obtain ⟨rfl, hst, hs⟩ := hown id (hlisted id hid) ent hent
    by_cases hrunning : id = s.startedId
    · subst hrunning
      exact (h.retired hid ent hent).2 hst (hlisted _ hid)
    · rw [h.refused id hid hrunning hst] at hs
      cases hs
  · intro h
    have hstored : ∀ id ∈ doomed, s.stored id ≠ true := by
      intro id hid hst
      obtain ⟨p, hp⟩ := getProfile_stored hst
      rw [h id hid] at hp
      cases hp
    refine ⟨fun id hid _ hst => absurd hst (hstored id hid), fun id hid _ hst => absurd hst (hstored id hid), fun hrunning ent hent => ?_⟩
    rw [h _ hrunning] at hent
    cases hent

/-! ## Two refreshes -/

/-- A group of one profile that answers and one listed id without a row, `sub_clear` on. -/
def quietStore : Store where
  tables :=
    { profiles := [⟨5, 1, "vless", 80, "a"⟩]
      groups := [⟨1, false, "https://sub", true, [5, 6]⟩]
      profileLastId := 6
      retiredProfileId := NoProfileId
      issued := by decide }
  identityMap := []
  tombstones := []
  memMap := []
  groupTombstones := []
  startedId := NoProfileId
  retiredProfileId := NoProfileId
  currentGroup := 1
  subClear := true

/-- The same group with `keep_working` off: both ids are doomed. -/
def clearedStore : Store :=
  { quietStore with memMap := [⟨1, false, "https://sub", false, [5, 6]⟩] }

/-- A document with one profile. -/
def oneProfile : Download := ⟨"https://sub", [⟨-1, -1, "vless", 0, "b"⟩]⟩

/-- The delete goes through and the insert is refused. -/
def insertRefused : Faults := ⟨true, .done, .refused 0, true⟩

theorem refresh_allOrNothing_quiet : AllOrNothing quietStore (refresh insertRefused 1 oneProfile quietStore).1 := by
  apply (refresh_allOrNothing_iff insertRefused 1 ⟨1, false, "https://sub", true, [5, 6]⟩ oneProfile
    quietStore _ rfl rfl rfl (Prod.ext rfl (by decide))).2
  have hdoomed : doomedProfiles quietStore ⟨1, false, "https://sub", true, [5, 6]⟩ = [6] := by decide
  rw [hdoomed]
  refine ⟨?_, ?_, ?_⟩
  · decide
  · intro id hid _ hst
    obtain rfl := mem_singleton.1 hid
    exact absurd hst (by decide)
  · intro hrunning
    exact absurd hrunning (by decide)

/-- The cleared profile has its row back, but it can not be saved any more. -/
theorem refresh_leaves_tombstone : (refresh insertRefused 1 oneProfile clearedStore).2 = .database ∧
    ¬ AllOrNothing clearedStore (refresh insertRefused 1 oneProfile clearedStore).1 := by
  refine ⟨by decide, ?_⟩
  intro h
  have hsaves := (h.kept ⟨5, 1, "vless", 80, "a"⟩ (by decide)).saves (by decide)
  cases hsaves

end Throne.Configs.Sub
