import Throne.Configs.Sub.GroupRefresh

/-!
# After a refresh the group lists its rows

Each step of a refresh, told by what it does to the rows (`RowOf`), to the listings and to the
retired profile. A row of the group that the listing omits stays unlisted through a refresh, so it
has to be the retired profile afterwards; the repository remembers one retired profile only. So the
group lists exactly its rows after a refresh when every row it omitted before was the retired
profile and the refresh retires nobody else (`refresh_lists_rows_iff`).
-/

namespace Throne.Configs.Sub

open Database Lib.Lists List

/-! ## Rows -/

/-- The profiles table has a row of that id in that group. -/
def RowOf (s : Store) (gid id : Int) : Prop := ∃ p ∈ s.tables.profiles, p.id = id ∧ p.gid = gid

/-- What the repositories keep to: a profile that is found has a row in its group, a row has one
group, and ids are not negative. -/
structure Tidy (s : Store) : Prop where
  live : ∀ id p, s.getProfile id = some p → RowOf s p.gid id
  unique : ∀ p ∈ s.tables.profiles, ∀ q ∈ s.tables.profiles, p.id = q.id → p.gid = q.gid
  natural : ∀ p ∈ s.tables.profiles, 0 ≤ p.id

variable {gid id : Int} {s : Store}

theorem RowOf.stored (h : RowOf s gid id) : s.stored id = true := by
  obtain ⟨p, hp, hid, _⟩ := h
  exact stored_iff.2 ⟨p, hp, hid⟩

theorem RowOf.found (h : RowOf s gid id) : ∃ p, s.getProfile id = some p := getProfile_stored h.stored

theorem RowOf.issued (h : RowOf s gid id) : id ≤ s.tables.profileLastId := by
  obtain ⟨p, hp, rfl, _⟩ := h
  exact s.tables.issued p hp

theorem Tidy.one_group (h : Tidy s) {gid' : Int} (h₁ : RowOf s gid id) (h₂ : RowOf s gid' id) : gid = gid' := by
  obtain ⟨p, hp, hpid, rfl⟩ := h₁
  obtain ⟨q, hq, hqid, rfl⟩ := h₂
  exact h.unique p hp q hq (hpid.trans hqid.symm)

theorem Tidy.natural_of (h : Tidy s) (hrow : RowOf s gid id) : 0 ≤ id := by
  obtain ⟨p, hp, rfl, _⟩ := hrow
  exact h.natural p hp

variable {s1 : Store}

/-- The rows after a change that took away the ids of `gone`. -/
theorem Tidy.of_filter (h : Tidy s) (gone : List Int) (hrows : s1.tables.profiles = s.tables.profiles.filter fun p => !gone.contains p.id)
    (hget : ∀ id p, s1.getProfile id = some p → s.getProfile id = some p ∧ id ∉ gone) :
    Tidy s1 ∧ ∀ gid id, RowOf s1 gid id ↔ RowOf s gid id ∧ id ∉ gone := by
  have hrow : ∀ gid id, RowOf s1 gid id ↔ RowOf s gid id ∧ id ∉ gone := by
    intro gid id
    rw [RowOf, hrows]
    constructor
    · rintro ⟨p, hp, rfl, hg⟩
      rw [mem_filter] at hp
      exact ⟨⟨p, hp.1, rfl, hg⟩, by simpa using hp.2⟩
    · rintro ⟨⟨p, hp, rfl, hg⟩, hout⟩
      exact ⟨p, mem_filter.2 ⟨hp, by simpa using hout⟩, rfl, hg⟩
  refine ⟨⟨?_, ?_, ?_⟩, hrow⟩
  · intro id p hp
    obtain ⟨hfound, hout⟩ := hget id p hp
    exact (hrow p.gid id).2 ⟨h.live id p hfound, hout⟩
  · intro p hp q hq
    rw [hrows] at hp hq
    exact h.unique p (mem_of_mem_filter hp) q (mem_of_mem_filter hq)
  · intro p hp
    rw [hrows] at hp
    exact h.natural p (mem_of_mem_filter hp)

theorem Tidy.groupsOnly (h : Tidy s) (honly : GroupsOnly s s1) : Tidy s1 ∧ ∀ gid id, RowOf s1 gid id ↔ RowOf s gid id := by
  have hrow : ∀ gid id, RowOf s1 gid id ↔ RowOf s gid id := by
    intro gid id
    rw [RowOf, RowOf, honly.profiles]
  refine ⟨⟨?_, ?_, ?_⟩, hrow⟩
  · intro id p hp
    rw [honly.getProfile] at hp
    exact (hrow p.gid id).2 (h.live id p hp)
  · rw [honly.profiles]
    exact h.unique
  · rw [honly.profiles]
    exact h.natural

/-! ## Deleting -/

variable {env : Faults} {depth : Nat}

/-- A transaction that went through is its body. -/
theorem transaction_applied {body : Store → Store × Ending}
    (h : transaction env depth body s = (s1, .returned true)) : body s = (s1, .returned true) := by
  cases depth with
  | succ depth => exact h
  | zero =>
    rw [transaction] at h
    split at h
    · split at h
      · next heq =>
        split at h
        · rw [heq]
          exact h
        · cases (Prod.mk.inj h).2
      · cases (Prod.mk.inj h).2
    · cases (Prod.mk.inj h).2

theorem deleteAndForget_applied {ids existing : List Int} (h : deleteAndForget env depth ids existing s = (s1, .returned true)) : s1 = { s with
      tables := s.tables.deleteProfiles ids
      identityMap := s.identityMap.filter fun p => !existing.contains p.id
      tombstones := s.tombstones ++ existing } := by
  rw [deleteAndForget] at h
  split at h
  · next mid heq =>
    have hbody := transaction_applied heq
    rw [deleteRows] at hbody
    split at hbody
    · cases hbody
      exact (Prod.mk.inj h).1.symm
    · cases (Prod.mk.inj hbody).2
  · next mid ending hne heq =>
    cases h
    exact absurd rfl hne

/-- What is found after `DeleteAndForget`: what was found before, without the deleted ids. -/
theorem getProfile_forgotten (s : Store) (ids : List Int) {mid : Store} (hmid : mid = { s with
      tables := s.tables.deleteProfiles ids
      identityMap := s.identityMap.filter fun p => !((s.getProfileBatch ids).map (·.id)).contains p.id
      tombstones := s.tombstones ++ (s.getProfileBatch ids).map (·.id) }) :
    (∀ id, id ∉ ids → mid.getProfile id = s.getProfile id) ∧ ∀ id, id ∈ ids → mid.getProfile id = none := by
  refine ⟨?_, ?_⟩
  · intro id hid
    have hexisting : id ∉ (s.getProfileBatch ids).map (·.id) := fun h => hid (mem_batch_ids.1 h).1
    rw [hmid]
    show (profileIn _ id).or (profileIn _ id) = _
    rw [profileIn_filter _ _ hexisting, Tables.deleteProfiles, profileIn_filter _ _ hid]
    rfl
  · intro id hid
    have hrow : profileIn (s.tables.deleteProfiles ids).profiles id = none := by
      rw [profileIn, find?_eq_none]
      intro p hp hpid
      rw [Tables.deleteProfiles, mem_filter] at hp
      have hpid' : p.id = id := by simpa using hpid
      rw [hpid', contains_iff_mem.2 hid] at hp
      exact absurd hp.2 (by simp)
    -- A live object of a deleted id was found, so it is forgotten.
    have hlive : profileIn mid.identityMap id = none := by
      rw [hmid, profileIn, find?_eq_none]
      intro p hp hpid
      rw [mem_filter] at hp
      have hpid' : p.id = id := by simpa using hpid
      have hfound : ∃ q, s.getProfile id = some q := by
        apply Option.isSome_iff_exists.1
        rw [Store.getProfile, Option.isSome_or, Bool.or_eq_true]
        left
        rw [profileIn, find?_isSome]
        exact ⟨p, hp.1, hpid⟩
      have hmem : p.id ∈ (s.getProfileBatch ids).map (·.id) := by
        rw [hpid']
        exact mem_batch_ids.2 ⟨hid, hfound⟩
      rw [contains_iff_mem.2 hmem] at hp
      exact absurd hp.2 (by simp)
    rw [Store.getProfile, hlive, hmid]
    exact hrow

/-- What a delete that went through does. -/
structure DeleteDone (s : Store) (ids : List Int) (s1 : Store) : Prop where
  tidy : Tidy s1
  rows : ∀ gid id, RowOf s1 gid id ↔ RowOf s gid id ∧ (id ∈ ids → id = s.startedId)
  profileLastId : s1.tables.profileLastId = s.tables.profileLastId
  startedId : s1.startedId = s.startedId
  listing : ∀ gid, s1.listing gid = (s.listing gid).filter fun id => !takenOff s ids gid id

theorem batchDelete_applied {doomed del : List Int} (ht : Tidy s) (h : batchDeleteProfiles env depth doomed s = (s1, del, .returned true)) :
    del = doomed.filter (fun id => id != s.startedId) ∧ Tidy s1 ∧ (∀ gid id, RowOf s1 gid id ↔ RowOf s gid id ∧ id ∉ del) ∧
      s1.tables.profileLastId = s.tables.profileLastId ∧ s1.startedId = s.startedId ∧
      s1.retiredProfileId = s.retiredProfileId ∧
      (∀ gid, s1.listing gid = (s.listing gid).filter fun id =>
        !(del.contains id && ((s.getProfileBatch del).map (·.gid)).contains gid)) ∧
      (∀ id, id ∉ del → s1.getProfile id = s.getProfile id) := by
  simp only [batchDeleteProfiles] at h
  generalize hids : doomed.filter (fun id => id != s.startedId) = ids at h ⊢
  cases ids with
  | nil =>
    obtain ⟨rfl, hrest⟩ := Prod.mk.inj h
    cases hrest
    refine ⟨rfl, ht, ?_, rfl, rfl, rfl, ?_, fun _ _ => rfl⟩
    · intro gid id
      simp
    · intro gid
      simp
  | cons first rest =>
    dsimp only at h
    split at h
    · next mid heq =>
      have hmid := deleteAndForget_applied heq
      obtain ⟨hs1, hrest⟩ := Prod.mk.inj h
      cases hrest
      generalize first :: rest = ids at *
      obtain ⟨honly, hget, -⟩ :=
        unlist_all_spec ids ((s.getProfileBatch ids).map (·.gid)).dedup mid
      rw [hs1] at honly hget
      obtain ⟨hsame, hnone⟩ := getProfile_forgotten s ids hmid
      have hleft : ∀ id p, mid.getProfile id = some p → s.getProfile id = some p ∧ id ∉ ids := by
        intro id p hp
        by_cases hid : id ∈ ids
        · rw [hnone id hid] at hp
          cases hp
        · rw [hsame id hid] at hp
          exact ⟨hp, hid⟩
      have hmidTidy := ht.of_filter ids (by rw [hmid]; rfl) hleft
      obtain ⟨htidy, hrows⟩ := hmidTidy.1.groupsOnly honly
      refine ⟨rfl, htidy, ?_, ?_, ?_, ?_, ?_, ?_⟩
      · intro gid id
        rw [hrows, hmidTidy.2]
      · rw [honly.profileLastId, hmid]
        rfl
      · rw [honly.startedId, hmid]
      · rw [honly.retiredProfileId, hmid]
      · apply listing_batchDelete
        intro gid
        rw [hget gid]
        have hgroup : mid.getGroup gid = s.getGroup gid := by
          rw [hmid]
          rfl
        rw [hgroup]
        simp only [mem_dedup]
      · intro id hid
        rw [honly.getProfile, hsame id hid]
    · next mid ending hne heq =>
      obtain ⟨rfl, hrest⟩ := Prod.mk.inj h
      cases hrest
      exact absurd rfl hne

theorem retire_rows (ht : Tidy s) {ent : Profile} (hent : s.getProfile id = some ent) :
    Tidy (s.retireProfile id) ∧ (∀ gid x, RowOf (s.retireProfile id) gid x ↔ RowOf s gid x) ∧
    (s.retireProfile id).startedId = s.startedId := by
  obtain ⟨honly, -, -⟩ := unlist_spec s [id] ent.gid
  obtain ⟨htidy, hrows⟩ := ht.groupsOnly honly
  rw [Store.retireProfile, hent]
  exact ⟨⟨htidy.live, htidy.unique, htidy.natural⟩, hrows, honly.startedId⟩

theorem deleteProfiles_applied {ids : List Int} {outcome : DeleteOutcome} (ht : Tidy s)
    (h : deleteProfiles env depth ids s = (s1, some outcome)) (hok : outcome.ok = true) : DeleteDone s ids s1 ∧
    outcome.kept.filter (fun id => id != outcome.retired) = [] ∧ s1.retiredProfileId =
    if s.startedId ∈ ids ∧ (s.getProfile s.startedId).isSome then s.startedId else s.retiredProfileId := by
  rw [deleteProfiles] at h
  split at h
  · cases (Prod.mk.inj h).2
  · next mid del ok heq =>
    have hokay : ok = true := by
      split_ifs at h
      all_goals
        rw [← Option.some.inj (Prod.mk.inj h).2] at hok
        exact hok
    subst hokay
    obtain ⟨hdel, htidy, hrows, hlast, hstarted, hretired, hlisting, hget⟩ :=
      batchDelete_applied ht heq
    have hrun : s.startedId ∉ del := by
      rw [hdel]
      simp
    have hmemdel : ∀ id, id ∈ del ↔ id ∈ ids ∧ id ≠ s.startedId := by
      intro id
      rw [hdel, mem_filter, bne_iff_ne]
    have hrows' : ∀ gid id, RowOf mid gid id ↔ RowOf s gid id ∧ (id ∈ ids → id = s.startedId) := by
      intro gid id
      rw [hrows, hmemdel]
      apply and_congr_right
      intro _
      rw [not_and, not_not]
    have hkept : (ids.filter fun id => !del.contains id).filter (fun id => id != s.startedId) = [] := by
      rw [filter_filter, filter_eq_nil_iff]
      intro id hid hboth
      rw [Bool.and_eq_true, bne_iff_ne, Bool.not_eq_true', ← Bool.not_eq_true, contains_iff_mem, hmemdel] at hboth
      exact hboth.2 ⟨hid, hboth.1⟩
    have htaken : ∀ gid id, takenOff s ids gid id = ((del.contains id && ((s.getProfileBatch del).map (·.gid)).contains gid) ||
          (ids.contains s.startedId && id == s.startedId && (s.getProfile s.startedId).any fun ent => ent.gid == gid)) := by
      intro gid id
      rw [takenOff, hdel]
    by_cases hin : s.startedId ∈ ids
    · have hcond : (true && ids.contains s.startedId && !del.contains s.startedId) = true := by
        simp [hin, hrun]
      rw [if_pos hcond] at h
      obtain ⟨rfl, hout⟩ := Prod.mk.inj h
      rw [← Option.some.inj hout]
      rcases hent : s.getProfile s.startedId with _ | ent
      · -- Nobody to retire.
        have hsame : mid.retireProfile s.startedId = mid := by
          simp only [Store.retireProfile, hget _ hrun, hent]
        rw [hsame]
        refine ⟨⟨htidy, hrows', hlast, hstarted, ?_⟩, hkept, ?_⟩
        · intro gid
          rw [hlisting gid]
          simp only [htaken, hent, Option.any_none, Bool.and_false, Bool.or_false]
        · rw [if_neg (by simp)]
          exact hretired
      · have hent' : mid.getProfile s.startedId = some ent := (hget _ hrun).trans hent
        obtain ⟨htidy', hrows'', hstarted'⟩ := retire_rows htidy hent'
        obtain ⟨-, hret', hlast', -, -⟩ := retireProfile_spec mid hent'
        refine ⟨⟨htidy', ?_, hlast'.trans hlast, hstarted'.trans hstarted, ?_⟩, hkept, ?_⟩
        · intro gid id
          rw [hrows'', hrows']
        · intro gid
          rw [listing_retire hent', hlisting gid, filter_filter]
          congr 1
          funext id
          simp only [htaken, hent, Option.any_some, contains_iff_mem.2 hin, Bool.true_and, Bool.not_or]
          exact Bool.and_comm _ _
        · rw [if_pos ⟨hin, rfl⟩]
          exact hret'
    · have hcond : ¬ (true && ids.contains s.startedId && !del.contains s.startedId) = true := by
        simp [hin]
      rw [if_neg hcond] at h
      obtain ⟨rfl, hout⟩ := Prod.mk.inj h
      rw [← Option.some.inj hout]
      refine ⟨⟨htidy, hrows', hlast, hstarted, ?_⟩, ?_, ?_⟩
      · intro gid
        rw [hlisting gid]
        have hfalse : ids.contains s.startedId = false := by simpa using hin
        simp only [htaken, hfalse, Bool.false_and, Bool.or_false]
      · rw [filter_filter, filter_eq_nil_iff]
        intro id hid hboth
        rw [Bool.and_eq_true, Bool.not_eq_true', ← Bool.not_eq_true, contains_iff_mem, hmemdel] at hboth
        apply hboth.2
        refine ⟨hid, ?_⟩
        rintro rfl
        exact hin hid
      · rw [if_neg (fun hboth => hin hboth.1)]
        exact hretired

/-! ## Inserting -/

theorem numbered_gid (first gid : Int) (ps : List Profile) : ∀ p ∈ numbered first gid ps, p.gid = gid := by
  induction ps generalizing first with
  | nil =>
    intro p hp
    cases hp
  | cons q ps ih =>
    intro p hp
    rcases mem_cons.1 hp with rfl | hp
    · rfl
    · exact ih (first + 1) p hp

/-- The ids a flush of `n` profiles hands out. -/
def handedOut (s : Store) (n : Nat) (id : Int) : Prop := s.tables.profileLastId + 1 ≤ id ∧ id < s.tables.profileLastId + 1 + n

theorem insert_rows (ht : Tidy s) (hlast : 0 ≤ s.tables.profileLastId) (gid : Int) (toAdd : List Profile) :
    Tidy { s with tables := s.tables.insertProfiles gid toAdd toAdd.length } ∧
      ∀ g id, RowOf { s with tables := s.tables.insertProfiles gid toAdd toAdd.length } g id ↔
        RowOf s g id ∨ (g = gid ∧ handedOut s toAdd.length id) := by
  have hprofiles : (s.tables.insertProfiles gid toAdd toAdd.length).profiles
      = s.tables.profiles ++ numbered (s.tables.profileLastId + 1) gid toAdd := by
    have hlen : ∀ (first : Int) (ps : List Profile), (numbered first gid ps).length = ps.length := by
      intro first ps
      induction ps generalizing first with
      | nil => rfl
      | cons q ps ih => rw [numbered, length_cons, ih, length_cons]
    rw [Tables.insertProfiles]
    dsimp only
    rw [← hlen (s.tables.profileLastId + 1) toAdd, take_length]
  have hrow : ∀ g id, RowOf { s with tables := s.tables.insertProfiles gid toAdd toAdd.length } g id ↔
      RowOf s g id ∨ (g = gid ∧ handedOut s toAdd.length id) := by
    intro g id
    rw [RowOf, hprofiles]
    constructor
    · rintro ⟨p, hp, rfl, rfl⟩
      rcases mem_append.1 hp with hp | hp
      · exact .inl ⟨p, hp, rfl, rfl⟩
      · exact .inr ⟨numbered_gid _ _ _ p hp, (mem_numbered_ids _ gid toAdd p.id).1 ⟨p, hp, rfl⟩⟩
    · rintro (⟨p, hp, rfl, rfl⟩ | ⟨rfl, hid⟩)
      · exact ⟨p, mem_append_left _ hp, rfl, rfl⟩
      · obtain ⟨p, hp, hpid⟩ := (mem_numbered_ids _ g toAdd id).2 hid
        exact ⟨p, mem_append_right _ hp, hpid, numbered_gid _ _ _ p hp⟩
  refine ⟨⟨?_, ?_, ?_⟩, hrow⟩
  · intro id p hp
    apply (hrow p.gid id).2
    have hsplit : s.getProfile id = some p ∨ profileIn (numbered (s.tables.profileLastId + 1) gid toAdd) id = some p := by
      rw [Store.getProfile, hprofiles, profileIn, profileIn, find?_append, ← Option.or_assoc, Option.or_eq_some_iff] at hp
      rcases hp with hp | hp
      · exact .inl hp
      · exact .inr hp.2
    rcases hsplit with hold | hnew
    · exact .inl (ht.live id p hold)
    · have hmem := mem_of_find?_eq_some hnew
      have hid : p.id = id := by simpa using find?_some hnew
      exact .inr ⟨numbered_gid _ _ _ p hmem, (mem_numbered_ids _ gid toAdd id).1 ⟨p, hmem, hid⟩⟩
  · intro p hp q hq hpq
    rw [hprofiles] at hp hq
    -- Old ids are at most the counter, new ids are above it.
    have hnew : ∀ r ∈ numbered (s.tables.profileLastId + 1) gid toAdd, s.tables.profileLastId < r.id := by
      intro r hr
      have := numbered_ids _ gid toAdd r hr
      omega
    rcases mem_append.1 hp with hp | hp <;> rcases mem_append.1 hq with hq | hq
    · exact ht.unique p hp q hq hpq
    · have h₁ := s.tables.issued p hp
      have h₂ := hnew q hq
      omega
    · have h₁ := s.tables.issued q hq
      have h₂ := hnew p hp
      omega
    · rw [numbered_gid _ _ _ p hp, numbered_gid _ _ _ q hq]
  · intro p hp
    rw [hprofiles] at hp
    rcases mem_append.1 hp with hp | hp
    · exact ht.natural p hp
    · have := numbered_ids _ gid toAdd p hp
      omega

theorem flush_applied {sink : ImportSink} (ht : Tidy s) (hlast : 0 ≤ s.tables.profileLastId) (hgid : 0 ≤ gid) (hchunk : ∀ p ∈ sink.chunk, p.id < 0)
    (h : sink.flush env gid s = (s1, .returned true)) : Tidy s1 ∧
    (∀ g id, RowOf s1 g id ↔ RowOf s g id ∨ (g = gid ∧ handedOut s sink.chunk.length id)) ∧
    s1.startedId = s.startedId ∧ s1.retiredProfileId = s.retiredProfileId := by
  have hempty : sink.chunk = [] → ∀ g id, RowOf s g id ↔ RowOf s g id ∨ (g = gid ∧ handedOut s sink.chunk.length id) := by
    intro hnil g id
    constructor
    · exact Or.inl
    · rintro (hrow | ⟨_, hid⟩)
      · exact hrow
      · rw [hnil, handedOut, length_nil] at hid
        omega
  have hfilter : sink.chunk.filter (fun p => decide (p.id < 0)) = sink.chunk :=
    filter_eq_self.2 fun p hp => decide_eq_true (hchunk p hp)
  rw [ImportSink.flush] at h
  split at h
  · next hnil =>
    cases h
    exact ⟨ht, hempty (List.isEmpty_iff.1 hnil), rfl, rfl⟩
  · next hnil =>
    simp only [addProfileBatch, if_neg (by omega : ¬ gid < 0), hfilter] at h
    split at h
    · cases (Prod.mk.inj h).2
    · next g hg =>
      rw [if_neg hnil] at h
      split at h
      · cases (Prod.mk.inj h).2
      · cases (Prod.mk.inj h).2
      · cases h
        obtain ⟨htidy, hrows⟩ := insert_rows ht hlast gid sink.chunk
        generalize hmid : ({ s with
          tables := s.tables.insertProfiles gid sink.chunk sink.chunk.length } : Store) = mid
          at htidy hrows
        obtain ⟨honly, -, -⟩ := touch_save_spec mid (g.addProfileBatch ((numbered (s.tables.profileLastId + 1) gid sink.chunk).map (·.id)))
        obtain ⟨htidy', hrows'⟩ := htidy.groupsOnly honly
        refine ⟨htidy', ?_, ?_, ?_⟩
        · intro g' id
          rw [hrows', hrows]
        · rw [honly.startedId, ← hmid]
        · rw [honly.retiredProfileId, ← hmid]

/-! ## The transaction -/

/-- A group a refresh can start from: its object is the one the repository finds, the listing has no
id twice and holds rows of no other group, and the retired profile is not listed. -/
structure Settled (s : Store) (group : Group) : Prop where
  found : s.getGroup group.id = some group
  natural : 0 ≤ group.id
  tidy : Tidy s
  counter : 0 ≤ s.tables.profileLastId
  started : s.startedId ≤ s.tables.profileLastId
  retired : s.retiredProfileId ≤ s.tables.profileLastId
  nodup : group.profiles.Nodup
  own : ∀ id ∈ group.profiles, ∀ gid, RowOf s gid id → gid = group.id
  unlisted : s.retiredProfileId ∉ group.profiles

variable {group : Group}

theorem Settled.saveGroup (h : Settled s group) : Settled (s.saveGroup group) group := by
  have honly := saveGroup_groupsOnly s group
  obtain ⟨htidy, hrows⟩ := h.tidy.groupsOnly honly
  refine ⟨?_, h.natural, htidy, ?_, ?_, ?_, h.nodup, ?_, ?_⟩
  · rw [getGroup_saveGroup h.found]
    exact h.found
  · rw [honly.profileLastId]
    exact h.counter
  · rw [honly.startedId, honly.profileLastId]
    exact h.started
  · rw [honly.retiredProfileId, honly.profileLastId]
    exact h.retired
  · intro id hid gid hrow
    exact h.own id hid gid ((hrows gid id).1 hrow)
  · rw [honly.retiredProfileId]
    exact h.unlisted

/-- A listed profile is found exactly when it has a row in the group. -/
theorem Settled.found_iff (h : Settled s group) (hid : id ∈ group.profiles) : (∃ p, s.getProfile id = some p) ↔ RowOf s group.id id := by
  constructor
  · rintro ⟨p, hp⟩
    have hrow := h.tidy.live id p hp
    rw [← h.own id hid p.gid hrow]
    exact hrow
  · exact RowOf.found

theorem members_listed (h : id ∈ members s group) : id ∈ group.profiles := mem_of_mem_filter h

theorem doomed_members (h : id ∈ doomedProfiles s group) : id ∈ members s group := by
  rw [doomedProfiles] at h
  split at h
  · dsimp only at h
    split at h
    · exact mem_of_mem_filter h
    · exact h
  · cases h

variable {opts : Options}

/-- The ids of the diff's old side. -/
theorem mem_oldIds (h : Settled s group) : id ∈ (oldEntries opts s group).map (·.id) ↔
    id ∈ members s group ∧ id ∉ doomedProfiles s group ∧ RowOf s group.id id := by
  have hids : (oldEntries opts s group).map (·.id) = (s.getProfileBatch (survivors s group)).map (·.id) := by
    rw [oldEntries, map_map]
    rfl
  rw [hids, mem_batch_ids, survivors, mem_filter, Bool.not_eq_true', ← Bool.not_eq_true, contains_iff_mem]
  constructor
  · rintro ⟨⟨hmem, hout⟩, hfound⟩
    exact ⟨hmem, hout, (h.found_iff (members_listed hmem)).1 hfound⟩
  · rintro ⟨hmem, hout, hrow⟩
    exact ⟨⟨hmem, hout⟩, hrow.found⟩

theorem oldIds_nodup (h : Settled s group) : ((oldEntries opts s group).map (·.id)).Nodup := by
  have hids : (oldEntries opts s group).map (·.id) = (survivors s group).filter fun id => (s.getProfile id).isSome := by
    rw [oldEntries, map_map, Store.getProfileBatch]
    generalize survivors s group = ids
    induction ids with
    | nil => rfl
    | cons id ids ih =>
      cases hp : s.getProfile id with
      | none =>
        rw [filterMap_cons_none hp, filter_cons_of_neg (by simp [hp])]
        exact ih
      | some p =>
        rw [filterMap_cons_some hp, filter_cons_of_pos (by simp [hp]), map_cons, ih]
        exact congrArg (· :: _) (getProfile_id hp)
  rw [hids]
  exact ((h.nodup.filter _).filter _).filter _

variable {download : Download}

/-- The rows after the transaction of a group that is not cleared. -/
theorem applyRefresh_applied (opts : Options) (hs : Settled s group) (hparsed : ∀ p ∈ download.profiles, p.id < 0)
    (hcleared : cleared (s.saveGroup group) group = false)
    (h : applyRefresh env group download s = (s1, .applied)) : Tidy s1 ∧ (∀ g id, RowOf s1 g id ↔
    (RowOf s g id ∧ (id ∈ doomedProfiles s group → id = s.startedId)) ∨ (g = group.id ∧ handedOut s
    (parsedSink (s.saveGroup group) group download.profiles).chunk.length id)) ∧ s1.startedId = s.startedId ∧ s1.retiredProfileId =
    if s.startedId ∈ doomedProfiles s group ∧ (s.getProfile s.startedId).isSome then s.startedId else s.retiredProfileId := by
  have hs0 := hs.saveGroup
  have honly := saveGroup_groupsOnly s group
  have hrow0 := (hs.tidy.groupsOnly honly).2
  have hchunk := (chunk_length opts download.profiles hcleared (oldIds_nodup hs0)).1
  rw [applyRefresh] at h
  split at h
  · cases (Prod.mk.inj h).2
  · split at h
    · cases (Prod.mk.inj h).2
    · dsimp only at h
      split at h
      · next mid heq =>
        cases h
        have hbody := transaction_applied heq
        rw [refreshBody, doomedProfiles_saveGroup] at hbody
        generalize hsink : parsedSink (s.saveGroup group) group download.profiles = sink at *
        have hneg : ∀ p ∈ sink.chunk, p.id < 0 := fun p hp => hparsed p (hchunk p hp)
        split at hbody
        · next hnil =>
          -- Nothing is doomed.
          obtain ⟨htidy, hrows, hst, hret⟩ :=
            flush_applied hs0.tidy hs0.counter hs0.natural hneg hbody
          rw [List.isEmpty_iff] at hnil
          refine ⟨htidy, ?_, hst.trans honly.startedId, ?_⟩
          · intro g id
            rw [hrows, hrow0, hnil, handedOut, honly.profileLastId]
            simp [handedOut]
          · rw [hret, honly.retiredProfileId, hnil]
            simp
        · split at hbody
          · cases (Prod.mk.inj hbody).2
          · next s2 outcome hdel =>
            split at hbody
            · next hok =>
              obtain ⟨hdone, -, hretired⟩ := deleteProfiles_applied hs0.tidy hdel hok
              have hcounter : 0 ≤ s2.tables.profileLastId := by
                rw [hdone.profileLastId]
                exact hs0.counter
              obtain ⟨htidy, hrows, hst, hret⟩ :=
                flush_applied hdone.tidy hcounter hs0.natural hneg hbody
              refine ⟨htidy, ?_, ?_, ?_⟩
              · intro g id
                rw [hrows, hdone.rows, hrow0, honly.startedId, handedOut, handedOut, hdone.profileLastId, honly.profileLastId]
              · rw [hst, hdone.startedId, honly.startedId]
              · rw [hret, hretired, honly.startedId, honly.retiredProfileId, honly.getProfile]
            · cases (Prod.mk.inj hbody).2
      · cases (Prod.mk.inj h).2

/-! ## The updates -/

/-- What the updates leave alone: who has a row in which group, the groups and the two ids the
process remembers. -/
structure RowsKept (s s1 : Store) : Prop where
  tidy : Tidy s1
  rows : ∀ gid id, RowOf s1 gid id ↔ RowOf s gid id
  profileLastId : s1.tables.profileLastId = s.tables.profileLastId
  startedId : s1.startedId = s.startedId
  retiredProfileId : s1.retiredProfileId = s.retiredProfileId
  getGroup : ∀ gid, s1.getGroup gid = s.getGroup gid

/-- The profile that `p` has replaced, and any other as it was. -/
def replaced (p q : Profile) : Profile := if q.id == p.id then p else q

theorem replaced_id (p q : Profile) : (replaced p q).id = q.id := by
  rw [replaced]
  split
  · next h => exact (beq_iff_eq.1 h).symm
  · rfl

theorem profileIn_replaced (p : Profile) (l : List Profile) (id : Int) : profileIn (l.map (replaced p)) id = (profileIn l id).map (replaced p) := by
  rw [profileIn, profileIn, find?_map]
  congr 2
  funext q
  rw [Function.comp_apply, replaced_id]

/-- A profile whose group is the one of its row is saved. -/
theorem saveProfile_kept (ht : Tidy s) {oldEnt p : Profile}
    (hold : s.getProfile id = some oldEnt) (hid : p.id = oldEnt.id) (hgid : p.gid = oldEnt.gid) : RowsKept s (saveProfile s p) := by
  have hpid : p.id = id := hid.trans (getProfile_id hold)
  have hrow : RowOf s p.gid p.id := by
    rw [hgid, hpid]
    exact ht.live id oldEnt hold
  -- The row of the table that is replaced is in the same group.
  have hsame : ∀ q ∈ s.tables.profiles, (replaced p q).gid = q.gid := by
    intro q hq
    rw [replaced]
    split
    · next h =>
      apply ht.one_group hrow
      rw [← beq_iff_eq.1 h]
      exact ⟨q, hq, rfl, rfl⟩
    · rfl
  have hput : (Tables.putProfile s.tables p).profiles = s.tables.profiles.map (replaced p) := by
    have hany : (s.tables.profiles.any fun q => q.id == p.id) = true := hrow.stored
    rw [Tables.putProfile, dif_pos hrow.issued]
    dsimp only
    rw [if_pos hany]
    rfl
  -- The tables are as before or have the row replaced.
  have hcases : ∀ t, (t = s.tables ∨ t = Tables.putProfile s.tables p) → RowsKept s { s with
        identityMap := s.identityMap.map (replaced p)
        tables := t } := by
    intro t hcase
    have hlast : t.profileLastId = s.tables.profileLastId ∧ t.groups = s.tables.groups := by
      rcases hcase with rfl | rfl
      · exact ⟨rfl, rfl⟩
      · rw [Tables.putProfile, dif_pos hrow.issued]
        exact ⟨rfl, rfl⟩
    have hmem : ∀ r ∈ t.profiles, ∃ q ∈ s.tables.profiles, q.id = r.id ∧ q.gid = r.gid := by
      intro r hr
      rcases hcase with rfl | rfl
      · exact ⟨r, hr, rfl, rfl⟩
      · rw [hput] at hr
        obtain ⟨q, hq, rfl⟩ := mem_map.1 hr
        exact ⟨q, hq, (replaced_id p q).symm, (hsame q hq).symm⟩
    have hmem' : ∀ q ∈ s.tables.profiles, ∃ r ∈ t.profiles, r.id = q.id ∧ r.gid = q.gid := by
      intro q hq
      rcases hcase with rfl | rfl
      · exact ⟨q, hq, rfl, rfl⟩
      · rw [hput]
        exact ⟨replaced p q, mem_map_of_mem hq, replaced_id p q, hsame q hq⟩
    have hrows : ∀ gid x, RowOf { s with
        identityMap := s.identityMap.map (replaced p)
        tables := t } gid x ↔ RowOf s gid x := by
      intro gid x
      constructor
      · rintro ⟨r, hr, rfl, rfl⟩
        obtain ⟨q, hq, h₁, h₂⟩ := hmem r hr
        exact ⟨q, hq, h₁, h₂⟩
      · rintro ⟨q, hq, rfl, rfl⟩
        obtain ⟨r, hr, h₁, h₂⟩ := hmem' q hq
        exact ⟨r, hr, h₁, h₂⟩
    refine ⟨⟨?_, ?_, ?_⟩, hrows, hlast.1, rfl, rfl, ?_⟩
    · intro x q hq
      apply (hrows q.gid x).2
      change (profileIn (s.identityMap.map (replaced p)) x).or (profileIn t.profiles x) = some q at hq
      rw [profileIn_replaced] at hq
      cases hlive : profileIn s.identityMap x with
      | some q₀ =>
        rw [hlive, Option.map_some, Option.some_or] at hq
        have hq₀ : s.getProfile x = some q₀ := by
          rw [Store.getProfile, hlive]
          rfl
        have hx := getProfile_id hq₀
        have heq : replaced p q₀ = q := Option.some.inj hq
        have hgidq : q.gid = q₀.gid := by
          rw [← heq, replaced]
          split
          · next h =>
            have hxid : x = id := by
              rw [← hx, beq_iff_eq.1 h, hpid]
            rw [hxid, hold] at hq₀
            rw [hgid, Option.some.inj hq₀]
          · rfl
        rw [hgidq]
        exact ht.live x q₀ hq₀
      | none =>
        rw [hlive, Option.map_none, Option.none_or] at hq
        have hmemq := mem_of_find?_eq_some hq
        have hxq : q.id = x := by simpa using find?_some hq
        obtain ⟨r, hr, h₁, h₂⟩ := hmem q hmemq
        exact ⟨r, hr, h₁.trans hxq, h₂⟩
    · intro r hr r' hr' hrr
      obtain ⟨q, hq, h₁, h₂⟩ := hmem r hr
      obtain ⟨q', hq', h₁', h₂'⟩ := hmem r' hr'
      rw [← h₂, ← h₂']
      exact ht.unique q hq q' hq' (h₁.trans (hrr.trans h₁'.symm))
    · intro r hr
      obtain ⟨q, hq, h₁, _⟩ := hmem r hr
      rw [← h₁]
      exact ht.natural q hq
    · intro gid
      show (groupIn s.memMap gid).or (groupIn t.groups gid) = _
      rw [hlast.2]
      rfl
  rw [saveProfile]
  dsimp only
  split
  · exact hcases s.tables (.inl rfl)
  · split
    · exact hcases s.tables (.inl rfl)
    · exact hcases _ (.inr rfl)

theorem applyUpdate_kept (ht : Tidy s) (update : Int × Int) : RowsKept s (applyUpdate s update) := by
  have hrefl : RowsKept s s := ⟨ht, fun _ _ => Iff.rfl, rfl, rfl, rfl, fun _ => rfl⟩
  rw [applyUpdate]
  split
  · next oldEnt newEnt hold hnew => exact saveProfile_kept ht hold rfl rfl
  · exact hrefl

theorem updates_kept (ht : Tidy s) (updates : List (Int × Int)) : RowsKept s (updates.foldl applyUpdate s) := by
  induction updates generalizing s with
  | nil => exact ⟨ht, fun _ _ => Iff.rfl, rfl, rfl, rfl, fun _ => rfl⟩
  | cons update updates ih =>
    have h₁ := applyUpdate_kept ht update
    have h₂ := ih h₁.tidy
    rw [foldl_cons]
    exact ⟨h₂.tidy, fun gid id => (h₂.rows gid id).trans (h₁.rows gid id), h₂.profileLastId.trans h₁.profileLastId, h₂.startedId.trans h₁.startedId,
      h₂.retiredProfileId.trans h₁.retiredProfileId,
      fun gid => (h₂.getGroup gid).trans (h₁.getGroup gid)⟩

/-! ## The new listing -/

theorem insertAt_perm (l : List Int) (position : Nat) (id : Int) : (insertAt l position id).Perm (id :: l) :=
  perm_insertIdx id l (Nat.min_le_right position l.length)

theorem withSticky_perm (order : List Int) (places : List (Int × Nat)) : (withSticky order places).Perm (places.map Prod.fst ++ order) := by
  induction places generalizing order with
  | nil => exact List.Perm.refl _
  | cons place places ih =>
    have hfirst : (places.map Prod.fst ++ insertAt order place.2 place.1).Perm (places.map Prod.fst ++ place.1 :: order) :=
      (insertAt_perm order place.2 place.1).append_left _
    exact ((ih (insertAt order place.2 place.1)).trans hfirst).trans perm_middle

theorem restore_perm (previousOrder l : List Int) (id : Int) : (restore previousOrder l id).Perm (if l.contains id then l else id :: l) := by
  rw [restore]
  split
  · exact List.Perm.refl _
  · split
    · exact perm_append_singleton id l
    · exact insertAt_perm l _ id

theorem restore_all (previousOrder : List Int) (ids l : List Int) (h : l.Nodup) : (ids.foldl (restore previousOrder) l).Nodup ∧
    ∀ id, id ∈ ids.foldl (restore previousOrder) l ↔ id ∈ l ∨ id ∈ ids := by
  induction ids generalizing l with
  | nil => exact ⟨h, by simp⟩
  | cons a ids ih =>
    have hperm := restore_perm previousOrder l a
    have hstep : (restore previousOrder l a).Nodup ∧ ∀ id, id ∈ restore previousOrder l a ↔ id ∈ l ∨ id = a := by
      by_cases ha : a ∈ l
      · rw [if_pos (contains_iff_mem.2 ha)] at hperm
        refine ⟨hperm.nodup_iff.2 h, fun id => ?_⟩
        rw [hperm.mem_iff]
        constructor
        · exact Or.inl
        · rintro (hid | rfl)
          · exact hid
          · exact ha
      · rw [if_neg (by simpa using ha)] at hperm
        refine ⟨hperm.nodup_iff.2 (nodup_cons.2 ⟨ha, h⟩), fun id => ?_⟩
        rw [hperm.mem_iff, mem_cons, or_comm]
    obtain ⟨hnodup, hmem⟩ := ih _ hstep.1
    refine ⟨hnodup, fun id => ?_⟩
    rw [foldl_cons, hmem, hstep.2, mem_cons, or_assoc]

theorem setListing_spec (s : Store) (group : Group) (l : List Int) :
    GroupsOnly s (setListing s group l) ∧ (setListing s group l).listing group.id = l := by
  obtain ⟨honly, hget, -⟩ := touch_save_spec s { group with profiles := l }
  refine ⟨honly, ?_⟩
  have hfound : (setListing s group l).getGroup group.id = some { group with profiles := l } :=
    (hget group.id).trans (if_pos rfl)
  rw [Store.listing, hfound]

/-! ## The diff, as sets of ids -/

variable {s2 : Store}

section Diff

variable {opts : Options} {s : Store} {group : Group} {document : List Profile}

/-- The ids the arrivals that need a row get. -/
def newIds (s : Store) (group : Group) (document : List Profile) (id : Int) : Prop := handedOut s (parsedSink s group document).chunk.length id

theorem Settled.fed (opts : Options) (hs : Settled s group) (document : List Profile) :
    Subscription.Fed (oldEntries opts s group) (flushedSink opts s group document).entries (flushedSink opts s group document).index := by
  apply Subscription.fed_feed _ (oldIds_nodup hs)
  intro e he
  have hrow := ((mem_oldIds hs).1 (mem_map_of_mem (f := (·.id)) he)).2.2
  have := hrow.issued
  omega

/-- The listed ids of the plan are the old and the new ids that are not stale. -/
theorem planOf_sets (opts : Options) (document : List Profile) (hs : Settled s group) (hcleared : cleared s group = false) (id : Int) :
    (id ∈ (planOf opts s group document).order ↔ (id ∈ (oldEntries opts s group).map (·.id) ∨ newIds s group document id) ∧
    id ∉ (planOf opts s group document).stale) ∧ (id ∈ (planOf opts s group document).stale →
    id ∈ (oldEntries opts s group).map (·.id) ∨ newIds s group document id) := by
  have hfed := hs.fed opts document
  have hpart := Subscription.exactPartition hfed
  have hnew := (chunk_length opts document hcleared (oldIds_nodup hs)).2
  change Subscription.ExactPartition _ _ _ (planOf opts s group document) at hpart
  have hfresh : ∀ e ∈ Subscription.storedEntries (flushedSink opts s group document).entries, e.reused = false → newIds s group document e.id := by
    intro e he hr
    exact (hnew e.id).1 ⟨e, mem_of_mem_filter he, hr, rfl⟩
  refine ⟨⟨?_, ?_⟩, ?_⟩
  · intro hid
    refine ⟨?_, hpart.order_stale id hid⟩
    obtain ⟨e, he, hrel⟩ := mem_of_forall₂ hpart.order_follows hid
    rcases hrel with rfl | ⟨_, hup⟩
    · cases hr : e.reused with
      | true => exact .inl (hfed.reused e (mem_of_mem_filter he) hr).1
      | false => exact .inr (hfresh e he hr)
    · exact .inl (hpart.updates_ids _ hup).1
  · rintro ⟨hold | hnewid, hstale⟩
    · have hpos := hs.tidy.natural_of ((mem_oldIds hs).1 hold).2.2
      obtain ⟨o, ho, rfl⟩ := mem_map.1 hold
      rcases hpart.old_one o ho with ⟨_, _, _, hcount⟩ | ⟨_, _, _, hcount⟩ | ⟨_, _, hcount, _⟩
      · exact count_pos_iff.1 (by rw [hcount hpos]; exact Nat.one_pos)
      · exact count_pos_iff.1 (by rw [hcount]; exact Nat.one_pos)
      · exact absurd (count_pos_iff.1 (by rw [hcount]; exact Nat.one_pos)) hstale
    · obtain ⟨e, he, hr, rfl⟩ := (hnew id).2 hnewid
      have hpos : 0 ≤ e.id := by
        have h₁ := hs.counter
        have h₂ := hnewid.1
        omega
      rcases hpart.new_one e (mem_filter.2 ⟨he, decide_eq_true hpos⟩) hr with
        ⟨hcount, _⟩ | ⟨_, _, hcount⟩
      · exact count_pos_iff.1 (by rw [hcount]; exact Nat.one_pos)
      · exact absurd (count_pos_iff.1 (by rw [hcount]; exact Nat.one_pos)) hstale
  · intro hid
    rcases hpart.stale_ids id hid with hold | hup
    · exact .inl hold
    · obtain ⟨p, hp, rfl⟩ := mem_map.1 hup
      obtain ⟨_, e, he, hr, heq⟩ := hpart.updates_ids p hp
      rw [← heq]
      exact .inr (hfresh e he hr)

theorem sticky_ids (s : Store) (group : Group) : (sticky s group).map Prod.fst
    = group.profiles.filter fun id => (s.getProfileIdsByType "autoselector").contains id := by
  have hmap := filter_map (f := (Prod.fst : Int × Nat → Int))
    (p := fun id => (s.getProfileIdsByType "autoselector").contains id) (l := group.profiles.zipIdx)
  rw [zipIdx_map_fst] at hmap
  exact hmap.symm

variable {id : Int}

theorem not_sticky_of_member (h : id ∈ members s group) : id ∉ (sticky s group).map Prod.fst := by
  rw [sticky_ids]
  intro hmem
  have h₁ := (mem_filter.1 h).2
  rw [(mem_filter.1 hmem).2] at h₁
  cases h₁

theorem listed_cases_of (h : id ∈ group.profiles) : id ∈ members s group ∨ id ∈ (sticky s group).map Prod.fst := by
  rw [sticky_ids, members, mem_filter, mem_filter]
  cases (s.getProfileIdsByType "autoselector").contains id with
  | true => exact .inr ⟨h, rfl⟩
  | false => exact .inl ⟨h, rfl⟩

theorem sticky_row (hs : Settled s group) (h : id ∈ (sticky s group).map Prod.fst) : id ∈ group.profiles ∧ RowOf s group.id id := by
  rw [sticky_ids, mem_filter, contains_iff_mem, Store.getProfileIdsByType] at h
  obtain ⟨hlisted, hsel⟩ := h
  obtain ⟨p, hp, rfl⟩ := mem_map.1 hsel
  have hrow : RowOf s p.gid p.id := ⟨p, mem_of_mem_filter hp, rfl, rfl⟩
  refine ⟨hlisted, ?_⟩
  rw [← hs.own p.id hlisted p.gid hrow]
  exact hrow

theorem newIds_above (h : newIds s group document id) : s.tables.profileLastId < id := by
  have := h.1
  omega

/-- Who is listed after the diff: the old and the new ids that are not deleted as stale, and the
auto selectors. -/
structure Diffed (opts : Options) (s : Store) (group : Group) (document : List Profile)
    (s1 s2 : Store) : Prop where
  tidy : Tidy s2
  rows : ∀ gid id, RowOf s2 gid id ↔ RowOf s1 gid id ∧ (id ∈ staleIds opts s group document → id = s.startedId)
  startedId : s2.startedId = s.startedId
  retiredProfileId : s2.retiredProfileId = if s.startedId ∈ staleIds opts s group document then s.startedId else s1.retiredProfileId
  nodup : (s2.listing group.id).Nodup
  listed : ∀ id, id ∈ s2.listing group.id ↔ ((id ∈ (oldEntries opts s group).map (·.id) ∨ newIds s group document id) ∧
        id ∉ staleIds opts s group document) ∨
      id ∈ (sticky s group).map Prod.fst

/-- The listing before the stale rows are deleted. -/
theorem withSticky_spec (opts : Options) (document : List Profile) (hs : Settled s group) (hcleared : cleared s group = false) :
    (withSticky (planOf opts s group document).order (sticky s group)).Nodup ∧
    (∀ id, id ∈ withSticky (planOf opts s group document).order (sticky s group) ↔
    id ∈ (sticky s group).map Prod.fst ∨ id ∈ (planOf opts s group document).order) ∧
    ∀ id, id ∈ withSticky (planOf opts s group document).order (sticky s group) → id ∉ (planOf opts s group document).stale := by
  have hperm := withSticky_perm (planOf opts s group document).order (sticky s group)
  have hsets := planOf_sets opts document hs hcleared
  -- An auto selector is neither an old id of the diff nor a new id.
  have hapart : ∀ id, id ∈ (sticky s group).map Prod.fst → ¬ (id ∈ (oldEntries opts s group).map (·.id) ∨ newIds s group document id) := by
    rintro id hst (hold | hnew)
    · exact not_sticky_of_member ((mem_oldIds hs).1 hold).1 hst
    · have h₁ := (sticky_row hs hst).2.issued
      have h₂ := newIds_above hnew
      omega
  have hmem : ∀ id, id ∈ withSticky (planOf opts s group document).order (sticky s group) ↔
      id ∈ (sticky s group).map Prod.fst ∨ id ∈ (planOf opts s group document).order := by
    intro id
    rw [hperm.mem_iff, mem_append]
  refine ⟨?_, hmem, ?_⟩
  · rw [hperm.nodup_iff]
    apply List.Nodup.append
    · rw [sticky_ids]
      exact hs.nodup.filter _
    · exact Subscription.order_nodup (hs.fed opts document)
    · intro id hst hord
      exact hapart id hst (((hsets id).1.1 hord).1)
  · intro id hid hstale
    rcases (hmem id).1 hid with hst | hord
    · exact hapart id hst ((hsets id).2 hstale)
    · exact ((hsets id).1.1 hord).2 hstale

theorem reconcileGroup_applied {faults : Faults} (hs : Settled s group)
    (hcleared : cleared s group = false) (ht : Tidy s1) (hst : s1.startedId = s.startedId)
    (hrun : s.startedId ∈ staleIds opts s group document → RowOf s1 group.id s.startedId)
    (h : reconcileGroup opts faults group document s s1 = (s2, true)) : Diffed opts s group document s1 s2 := by
  obtain ⟨hnodup, hmem, hstaleless⟩ := withSticky_spec opts document hs hcleared
  have hsets := planOf_sets opts document hs hcleared
  rw [reconcileGroup] at h
  dsimp only at h
  have hup := updates_kept ht (planOf opts s group document).updates
  generalize (planOf opts s group document).updates.foldl applyUpdate s1 = su at h hup
  obtain ⟨honly, hlist⟩ := setListing_spec su group (withSticky (planOf opts s group document).order (sticky s group))
  obtain ⟨htidy3, hrows3⟩ := hup.tidy.groupsOnly honly
  generalize setListing su group (withSticky (planOf opts s group document).order (sticky s group)) = s3 at h honly hlist htidy3 hrows3
  have hstarted3 : s3.startedId = s.startedId := by
    rw [honly.startedId, hup.startedId, hst]
  have hretired3 : s3.retiredProfileId = s1.retiredProfileId := by
    rw [honly.retiredProfileId, hup.retiredProfileId]
  split at h
  · cases (Prod.mk.inj h).2
  · next s4 outcome hdel =>
    have hok : outcome.ok = true := by
      split_ifs at h
      all_goals exact (Prod.mk.inj h).2
    obtain ⟨hdone, hkept, hretired⟩ := deleteProfiles_applied htidy3 hdel hok
    -- No listed id is stale, so the delete leaves the listing alone.
    have hsame : s4.listing group.id = withSticky (planOf opts s group document).order (sticky s group) := by
      rw [hdone.listing, hlist]
      apply filter_eq_self.2
      intro id hid
      rw [Bool.not_eq_true', ← Bool.not_eq_true, takenOff_iff]
      rintro (⟨hin, _⟩ | ⟨hin, rfl, _⟩)
      · exact hstaleless id hid (mem_of_mem_filter hin)
      · exact hstaleless _ hid (mem_of_mem_filter hin)
    have hretired4 : s4.retiredProfileId = if s.startedId ∈ staleIds opts s group document then s.startedId
        else s1.retiredProfileId := by
      rw [hretired, hstarted3, hretired3]
      by_cases hin : s.startedId ∈ staleIds opts s group document
      · have hfound : RowOf s3 group.id s.startedId :=
          (hrows3 _ _).2 ((hup.rows _ _).2 (hrun hin))
        have hisSome : (s3.getProfile s.startedId).isSome = true := Option.isSome_iff_exists.2 hfound.found
        rw [if_pos ⟨hin, hisSome⟩, if_pos hin]
      · rw [if_neg (fun hboth => hin hboth.1), if_neg hin]
    have hrows4 : ∀ gid id, RowOf s4 gid id ↔ RowOf s1 gid id ∧ (id ∈ staleIds opts s group document → id = s.startedId) := by
      intro gid id
      rw [hdone.rows, hrows3, hup.rows, hstarted3]
    have hkeptWorking : ∀ id, id ∈ keptWorkingIds opts s group document ↔
        id ∈ (planOf opts s group document).stale ∧ id ∉ staleIds opts s group document := by
      intro id
      rw [keptWorkingIds, staleIds, mem_filter, mem_filter]
      cases (working s group).contains id with
      | true | false => simp
    have hlisted : ∀ id, (id ∈ s4.listing group.id ∨ id ∈ keptWorkingIds opts s group document) ↔
        ((id ∈ (oldEntries opts s group).map (·.id) ∨ newIds s group document id) ∧ id ∉ staleIds opts s group document) ∨
          id ∈ (sticky s group).map Prod.fst := by
      intro id
      have hsub : id ∈ staleIds opts s group document → id ∈ (planOf opts s group document).stale := mem_of_mem_filter
      rw [hsame, hmem, hkeptWorking, (hsets id).1]
      have hback := (hsets id).2
      tauto
    split_ifs at h with hnone
    · obtain ⟨rfl, -⟩ := Prod.mk.inj h
      refine ⟨hdone.tidy, hrows4, hdone.startedId.trans hstarted3, hretired4, ?_, ?_⟩
      · rw [hsame]
        exact hnodup
      · intro id
        rw [← hlisted id]
        rw [Bool.and_eq_true, List.isEmpty_iff, List.isEmpty_iff] at hnone
        rw [hnone.2]
        simp
    · obtain ⟨rfl, -⟩ := Prod.mk.inj h
      rw [hkept, nil_append]
      obtain ⟨hnodup', hmem'⟩ := restore_all (su.listing group.id)
        (keptWorkingIds opts s group document) (s4.listing group.id) (by rw [hsame]; exact hnodup)
      obtain ⟨honly', hlist'⟩ := setListing_spec s4 group
        ((keptWorkingIds opts s group document).foldl (restore (su.listing group.id)) (s4.listing group.id))
      obtain ⟨htidy', hrows'⟩ := hdone.tidy.groupsOnly honly'
      refine ⟨htidy', ?_, ?_, ?_, ?_, ?_⟩
      · intro gid id
        rw [hrows', hrows4]
      · rw [honly'.startedId, hdone.startedId, hstarted3]
      · rw [honly'.retiredProfileId, hretired4]
      · rw [hlist']
        exact hnodup'
      · intro id
        rw [hlist', hmem', hlisted]

/-! ## The flagged profiles -/

/-- What is flagged is listed, found and no auto selector. -/
theorem mem_flaggedIds (h : id ∈ flaggedIds opts s group s2) :
    id ∈ s2.listing group.id ∧ id ∉ (sticky s group).map Prod.fst ∧ ∃ p, s2.getProfile id = some p := by
  obtain ⟨p, hp, rfl⟩ := mem_map.1 h
  have hcand : p.id ∈ (flagCandidates s group s2).map (·.id) := mem_map_of_mem (f := (·.id)) (mem_of_mem_filter hp)
  obtain ⟨hmem, hfound⟩ := mem_batch_ids.1 hcand
  obtain ⟨hlisted, hout⟩ := mem_filter.1 hmem
  refine ⟨hlisted, ?_, hfound⟩
  rw [Bool.not_eq_true', ← Bool.not_eq_true, contains_iff_mem] at hout
  exact hout

theorem removeFlagged_applied {faults : Faults} {s3 : Store} (ht : Tidy s2)
    (hown : ∀ id ∈ s2.listing group.id, ∀ gid, RowOf s2 gid id → gid = group.id)
    (h : removeFlagged opts faults s group s2 = (s3, true)) : (∀ gid id, RowOf s3 gid id ↔
    RowOf s2 gid id ∧ (id ∈ flaggedIds opts s group s2 → id = s2.startedId)) ∧ s3.retiredProfileId =
    (if s2.startedId ∈ flaggedIds opts s group s2 then s2.startedId else s2.retiredProfileId) ∧ s3.listing group.id
    = (s2.listing group.id).filter fun id => !(flaggedIds opts s group s2).contains id := by
  rw [removeFlagged] at h
  split at h
  · next hnil =>
    cases h
    rw [List.isEmpty_iff] at hnil
    rw [hnil]
    refine ⟨?_, by simp, by simp⟩
    intro gid id
    simp
  · split at h
    · cases (Prod.mk.inj h).2
    · next s4 outcome hdel =>
      obtain ⟨rfl, hok⟩ := Prod.mk.inj h
      obtain ⟨hdone, -, hretired⟩ := deleteProfiles_applied ht hdel hok
      refine ⟨hdone.rows, ?_, ?_⟩
      · rw [hretired]
        by_cases hin : s2.startedId ∈ flaggedIds opts s group s2
        · rw [if_pos ⟨hin, Option.isSome_iff_exists.2 (mem_flaggedIds hin).2.2⟩, if_pos hin]
        · rw [if_neg (fun hboth => hin hboth.1), if_neg hin]
      · rw [hdone.listing]
        apply filter_congr
        intro id _
        congr 1
        rw [Bool.eq_iff_iff, takenOff_iff, contains_iff_mem]
        constructor
        · rintro (⟨hin, _⟩ | ⟨hin, rfl, _⟩)
          all_goals exact hin
        · intro hin
          obtain ⟨hlisted, _, p, hp⟩ := mem_flaggedIds hin
          have hgid : p.gid = group.id := hown id hlisted p.gid (ht.live id p hp)
          by_cases hrun : id = s2.startedId
          · subst hrun
            exact .inr ⟨hin, rfl, p, hp, hgid⟩
          · exact .inl ⟨hin, hrun, id, hin, hrun, p, hp, hgid⟩

end Diff

/-! ## The refresh -/

/-- The group lists exactly its rows, each once, without the retired profile. -/
structure ListsItsRows (s : Store) (gid : Int) : Prop where
  nodup : (s.listing gid).Nodup
  exact : ∀ id, id ∈ s.listing gid ↔ RowOf s gid id ∧ id ≠ s.retiredProfileId

/-- The store after the diff, before the flagged profiles are removed. -/
def diffed (opts : Options) (faults : RefreshFaults) (group : Group) (download : Download) (s : Store) : Store :=
  (reconcileGroup opts faults.stale group download.profiles (s.saveGroup group) (applyRefresh faults.transaction group download s).1).1

/-- The running profile leaves the group: it is doomed by `sub_clear`, stale without being kept as a
working one, or flagged by an option. -/
def RunningLeaves (opts : Options) (faults : RefreshFaults) (group : Group) (download : Download) (s : Store) : Prop :=
  (s.startedId ∈ doomedProfiles s group ∧ RowOf s group.id s.startedId) ∨ s.startedId ∈ staleIds opts (s.saveGroup group) group download.profiles ∨
    s.startedId ∈ flaggedIds opts (s.saveGroup group) group (diffed opts faults group download s)

/-- Rows and listings after the refresh, with the retired profile `gone`, against those before:
`row`, `listed`, `member` and `pinned` tell of the group before, `doomed`, `stale` and `flagged` of
who is deleted, `fresh` of the new ids. The rows that were not listed decide. -/
theorem lists_rows_of_sets (row listed member pinned doomed stale flagged fresh : Int → Prop)
    (run before gone : Int) (leaves : Prop) (hlisted : ∀ id, listed id ↔ member id ∨ pinned id)
    (hpinned : ∀ id, pinned id → row id ∧ ¬ member id) (hdoomed : ∀ id, doomed id → member id)
    (hstale : ∀ id, stale id → (member id ∧ ¬ doomed id ∧ row id) ∨ fresh id) (hflagged : ∀ id, flagged id →
    ((((member id ∧ ¬ doomed id ∧ row id) ∨ fresh id) ∧ ¬ stale id) ∨ pinned id) ∧ ¬ pinned id)
    (hfresh : ∀ id, fresh id → ¬ row id ∧ id ≠ run ∧ id ≠ before) (hbefore : ¬ listed before)
    (hleaves : leaves ↔ (doomed run ∧ row run) ∨ stale run ∨ flagged run) (hgone : (leaves → gone = run) ∧ (¬ leaves → gone = before)) :
    (∀ id, ((((member id ∧ ¬ doomed id ∧ row id) ∨ fresh id) ∧ ¬ stale id) ∨ pinned id) ∧ ¬ flagged id ↔
    (((row id ∧ (doomed id → id = run)) ∨ fresh id) ∧ (stale id → id = run) ∧ (flagged id → id = run)) ∧ id ≠ gone) ↔
    ∀ id, row id → ¬ listed id → id = before ∧ ¬ leaves := by
  -- Who leaves was listed.
  have hrun : leaves → listed run := by
    intro hl
    rcases hleaves.1 hl with ⟨hd, _⟩ | hst | hfl
    · exact (hlisted run).2 (.inl (hdoomed run hd))
    · rcases hstale run hst with ⟨hm, _⟩ | hf
      · exact (hlisted run).2 (.inl hm)
      · exact absurd rfl (hfresh run hf).2.1
    · rcases (hflagged run hfl).1 with ⟨⟨hm, _⟩ | hf, _⟩ | hp
      · exact (hlisted run).2 (.inl hm)
      · exact absurd rfl (hfresh run hf).2.1
      · exact (hlisted run).2 (.inr hp)
  -- A row that was not listed is neither deleted nor listed.
  have houter : ∀ id, row id → ¬ listed id → ¬ doomed id ∧ ¬ stale id ∧ ¬ flagged id ∧ ¬ member id ∧ ¬ pinned id ∧ ¬ fresh id := by
    intro id hr hl
    have hm : ¬ member id := fun h => hl ((hlisted id).2 (.inl h))
    have hp : ¬ pinned id := fun h => hl ((hlisted id).2 (.inr h))
    have hf : ¬ fresh id := fun h => (hfresh id h).1 hr
    refine ⟨fun h => hm (hdoomed id h), ?_, ?_, hm, hp, hf⟩
    · intro h
      rcases hstale id h with h' | h'
      · exact hm h'.1
      · exact hf h'
    · intro h
      rcases (hflagged id h).1 with ⟨h' | h', _⟩ | h'
      · exact hm h'.1
      · exact hf h'
      · exact hp h'
  constructor
  · intro hall id hr hl
    obtain ⟨hd, hst, hfl, hm, hp, hf⟩ := houter id hr hl
    have hid : id = gone := by
      by_contra hne
      rcases (hall id).2 ⟨⟨.inl ⟨hr, fun h => absurd h hd⟩, fun h => absurd h hst, fun h => absurd h hfl⟩, hne⟩ with ⟨⟨⟨h, _⟩ | h, _⟩ | h, _⟩
      · exact hm h
      · exact hf h
      · exact hp h
    have hstays : ¬ leaves := by
      intro hleave
      rw [hgone.1 hleave] at hid
      rw [hid] at hl
      exact hl (hrun hleave)
    exact ⟨hid.trans (hgone.2 hstays), hstays⟩
  · intro hcond id
    constructor
    · rintro ⟨hin, hfl⟩
      have hrow : ((row id ∧ (doomed id → id = run)) ∨ fresh id) ∧ ¬ stale id := by
        rcases hin with ⟨⟨_, hd, hr⟩ | hf, hst⟩ | hp
        · exact ⟨.inl ⟨hr, fun h => absurd h hd⟩, hst⟩
        · exact ⟨.inr hf, hst⟩
        · obtain ⟨hr, hm⟩ := hpinned id hp
          refine ⟨.inl ⟨hr, fun h => absurd (hdoomed id h) hm⟩, ?_⟩
          intro hst
          rcases hstale id hst with h | h
          · exact hm h.1
          · exact (hfresh id h).1 hr
      refine ⟨⟨hrow.1, fun h => absurd h hrow.2, fun h => absurd h hfl⟩, ?_⟩
      by_cases hleave : leaves
      · -- The running profile left, and this one is listed.
        rw [hgone.1 hleave]
        rintro rfl
        rcases hleaves.1 hleave with ⟨hd, _⟩ | hst | hfl'
        · rcases hin with ⟨⟨_, hnd, _⟩ | hf, _⟩ | hp
          · exact hnd hd
          · exact (hfresh _ hf).2.1 rfl
          · exact (hpinned _ hp).2 (hdoomed _ hd)
        · exact hrow.2 hst
        · exact hfl hfl'
      · rw [hgone.2 hleave]
        rintro rfl
        rcases hin with ⟨⟨hm, _⟩ | hf, _⟩ | hp
        · exact hbefore ((hlisted _).2 (.inl hm))
        · exact (hfresh _ hf).2.2 rfl
        · exact hbefore ((hlisted _).2 (.inr hp))
    · rintro ⟨⟨hrow, hst, hfl⟩, hne⟩
      -- Only the running profile can be deleted and keep its row, but then it is the retired one.
      have hspared : ¬ (doomed id ∧ id = run ∧ row id) ∧ ¬ stale id ∧ ¬ flagged id := by
        refine ⟨?_, ?_, ?_⟩
        · rintro ⟨hd, rfl, hr⟩
          exact hne (hgone.1 (hleaves.2 (.inl ⟨hd, hr⟩))).symm
        · intro h
          have hid := hst h
          subst hid
          exact hne (hgone.1 (hleaves.2 (.inr (.inl h)))).symm
        · intro h
          have hid := hfl h
          subst hid
          exact hne (hgone.1 (hleaves.2 (.inr (.inr h)))).symm
      refine ⟨?_, hspared.2.2⟩
      rcases hrow with ⟨hr, hd⟩ | hf
      · by_cases hl : listed id
        · rcases (hlisted id).1 hl with hm | hp
          · exact .inl ⟨.inl ⟨hm, fun h => hspared.1 ⟨h, hd h, hr⟩, hr⟩, hspared.2.1⟩
          · exact .inr hp
        · obtain ⟨hid, hstays⟩ := hcond id hr hl
          exact absurd (hid.trans (hgone.2 hstays).symm) hne
      · exact .inl ⟨.inr hf, hspared.2.1⟩

/-- The sort moves ids and no more. -/
theorem resort_perm (opts : Options) (s : Store) (l : List Int) : (resort opts s l).Perm l := by
  rw [resort]
  split
  · exact mergeSort_perm l _
  · exact List.Perm.refl l

/-- The stages of a refresh that went through. -/
theorem refreshDiff_done {faults : RefreshFaults} {s' : Store} (h : applyRefreshDiff opts faults group download s = (s', .done true)) :
    ∃ s1 s2 s3, applyRefresh faults.transaction group download s = (s1, .applied) ∧ cleared (s.saveGroup group) group = false ∧
    reconcileGroup opts faults.stale group download.profiles (s.saveGroup group) s1 = (s2, true) ∧
    removeFlagged opts faults.flagged (s.saveGroup group) group s2 = (s3, true) ∧
    s' = setListing s3 group (resort opts s3 (s3.listing group.id)) := by
  rw [applyRefreshDiff] at h
  split at h
  · next s1 happlied =>
    dsimp only at h
    split at h
    · cases (Prod.mk.inj h).2
    · next hcleared =>
      rcases hdiff : reconcileGroup opts faults.stale group download.profiles (s.saveGroup group) s1 with ⟨s2, staleOk⟩
      rcases hflag : removeFlagged opts faults.flagged (s.saveGroup group) group s2
        with ⟨s3, flaggedOk⟩
      rw [hdiff] at h
      dsimp only at h
      rw [hflag] at h
      obtain ⟨hs', hend⟩ := Prod.mk.inj h
      obtain ⟨rfl, rfl⟩ := Bool.and_eq_true_iff.1 (RefreshEnd.done.inj hend)
      exact ⟨s1, s2, s3, happlied, by simpa using hcleared, hdiff, hflag, hs'.symm⟩
  · cases (Prod.mk.inj h).2

/-! ### The group before, seen through its saved header -/

section Before

variable {opts : Options} {s : Store} {group : Group}

theorem doomed_members_saved (h : id ∈ doomedProfiles s group) : id ∈ members (s.saveGroup group) group := by
  have hmem := doomed_members h
  rw [members, Store.getProfileIdsByType] at hmem ⊢
  rw [(saveGroup_groupsOnly s group).profiles]
  exact hmem

theorem mem_listing_iff (hs : Settled s group) (id : Int) : id ∈ s.listing group.id ↔ id ∈ members (s.saveGroup group) group ∨
    id ∈ (sticky (s.saveGroup group) group).map Prod.fst := by
  rw [Store.listing, hs.found]
  constructor
  · exact listed_cases_of
  · rintro (hmem | hst)
    · exact members_listed hmem
    · exact (sticky_row hs.saveGroup hst).1

theorem sticky_saved (hs : Settled s group) (id : Int) (hid : id ∈ (sticky (s.saveGroup group) group).map Prod.fst) :
    RowOf s group.id id ∧ id ∉ members (s.saveGroup group) group := by
  have hrow0 := (hs.tidy.groupsOnly (saveGroup_groupsOnly s group)).2
  refine ⟨(hrow0 _ _).1 (sticky_row hs.saveGroup hid).2, ?_⟩
  intro hmem
  exact not_sticky_of_member hmem hid

theorem newIds_saved (hs : Settled s group) {document : List Profile} (id : Int) (hid : newIds (s.saveGroup group) group document id) :
    ¬ RowOf s group.id id ∧ id ≠ s.startedId ∧ id ≠ s.retiredProfileId := by
  have habove := newIds_above hid
  rw [(saveGroup_groupsOnly s group).profileLastId] at habove
  refine ⟨?_, ?_, ?_⟩
  · intro hrow
    have := hrow.issued
    omega
  · have := hs.started
    omega
  · have := hs.retired
    omega

theorem mem_oldIds_saved (hs : Settled s group) (id : Int) : id ∈ (oldEntries opts (s.saveGroup group) group).map (·.id) ↔
    id ∈ members (s.saveGroup group) group ∧ id ∉ doomedProfiles s group ∧ RowOf s group.id id := by
  rw [mem_oldIds hs.saveGroup, doomedProfiles_saveGroup, (hs.tidy.groupsOnly (saveGroup_groupsOnly s group)).2]

theorem mem_staleIds_saved (hs : Settled s group) (hcleared : cleared (s.saveGroup group) group = false) {document : List Profile} (id : Int)
    (hid : id ∈ staleIds opts (s.saveGroup group) group document) : (id ∈ members (s.saveGroup group) group ∧ id ∉ doomedProfiles s group ∧
    RowOf s group.id id) ∨ newIds (s.saveGroup group) group document id := by
  rw [← mem_oldIds_saved hs]
  exact (planOf_sets opts document hs.saveGroup hcleared id).2 (mem_of_mem_filter hid)

end Before

/-- A refresh that went through, as sets of ids. -/
structure Refreshed (opts : Options) (faults : RefreshFaults) (group : Group)
    (download : Download) (s s' : Store) : Prop where
  cleared : cleared (s.saveGroup group) group = false
  nodup : (s'.listing group.id).Nodup
  flagged : ∀ id, id ∈ flaggedIds opts (s.saveGroup group) group (diffed opts faults group download s) →
    ((((id ∈ members (s.saveGroup group) group ∧ id ∉ doomedProfiles s group ∧
        RowOf s group.id id) ∨ newIds (s.saveGroup group) group download.profiles id) ∧
      id ∉ staleIds opts (s.saveGroup group) group download.profiles) ∨ id ∈ (sticky (s.saveGroup group) group).map Prod.fst) ∧
      id ∉ (sticky (s.saveGroup group) group).map Prod.fst
  listed : ∀ id, id ∈ s'.listing group.id ↔ ((((id ∈ members (s.saveGroup group) group ∧ id ∉ doomedProfiles s group ∧
        RowOf s group.id id) ∨ newIds (s.saveGroup group) group download.profiles id) ∧
      id ∉ staleIds opts (s.saveGroup group) group download.profiles) ∨ id ∈ (sticky (s.saveGroup group) group).map Prod.fst) ∧
      id ∉ flaggedIds opts (s.saveGroup group) group (diffed opts faults group download s)
  rows : ∀ id, RowOf s' group.id id ↔ ((RowOf s group.id id ∧ (id ∈ doomedProfiles s group → id = s.startedId)) ∨
      newIds (s.saveGroup group) group download.profiles id) ∧
    (id ∈ staleIds opts (s.saveGroup group) group download.profiles → id = s.startedId) ∧
    (id ∈ flaggedIds opts (s.saveGroup group) group (diffed opts faults group download s) → id = s.startedId)
  retired : s'.retiredProfileId = if s.startedId ∈ flaggedIds opts (s.saveGroup group) group
      (diffed opts faults group download s) then s.startedId
    else if s.startedId ∈ staleIds opts (s.saveGroup group) group download.profiles
    then s.startedId
    else if s.startedId ∈ doomedProfiles s group ∧ (s.getProfile s.startedId).isSome
    then s.startedId else s.retiredProfileId

theorem refreshed_of_done {faults : RefreshFaults} {s' : Store} (hs : Settled s group) (hparsed : ∀ p ∈ download.profiles, p.id < 0)
    (hdone : applyRefreshDiff opts faults group download s = (s', .done true)) : Refreshed opts faults group download s s' := by
  have hs0 := hs.saveGroup
  have honly := saveGroup_groupsOnly s group
  have hstart0 : (s.saveGroup group).startedId = s.startedId := honly.startedId
  obtain ⟨s1, s2, s3, happlied, hcleared, hdiff, hflag, hs'⟩ := refreshDiff_done hdone
  have hdiffed : diffed opts faults group download s = s2 := by
    rw [diffed, happlied, hdiff]
  obtain ⟨htidy1, hrows1, hstarted1, hretired1⟩ :=
    applyRefresh_applied opts hs hparsed hcleared happlied
  have hnewRow : ∀ id, RowOf s1 group.id id ↔ (RowOf s group.id id ∧ (id ∈ doomedProfiles s group → id = s.startedId)) ∨
        newIds (s.saveGroup group) group download.profiles id := by
    intro id
    rw [hrows1, newIds, handedOut, handedOut, honly.profileLastId]
    simp
  have hd := reconcileGroup_applied hs0 hcleared htidy1 (hstarted1.trans hstart0.symm) (by
    rw [hstart0]
    intro hin
    rw [hnewRow]
    rcases mem_staleIds_saved hs hcleared _ hin with ⟨_, hout, hrow⟩ | hnew
    · exact .inl ⟨hrow, fun _ => rfl⟩
    · exact .inr hnew) hdiff
  have hlisted2 : ∀ id, id ∈ s2.listing group.id ↔ (((id ∈ members (s.saveGroup group) group ∧ id ∉ doomedProfiles s group ∧
          RowOf s group.id id) ∨ newIds (s.saveGroup group) group download.profiles id) ∧
        id ∉ staleIds opts (s.saveGroup group) group download.profiles) ∨ id ∈ (sticky (s.saveGroup group) group).map Prod.fst := by
    intro id
    rw [hd.listed, mem_oldIds_saved hs]
  -- The listed ids after the diff are of this group, so the flagged ones leave its listing.
  have hown2 : ∀ id ∈ s2.listing group.id, ∀ gid, RowOf s2 gid id → gid = group.id := by
    intro id hid gid hrow
    rcases (hrows1 gid id).1 ((hd.rows gid id).1 hrow).1 with ⟨hbefore, _⟩ | ⟨hgid, _⟩
    · have hin : id ∈ group.profiles := by
        rcases (hlisted2 id).1 hid with ⟨⟨hmem, _⟩ | hnew, _⟩ | hst
        · exact members_listed hmem
        · have h₁ := newIds_above hnew
          have h₂ := hbefore.issued
          rw [honly.profileLastId] at h₁
          omega
        · exact (sticky_row hs0 hst).1
      exact hs.own id hin gid hbefore
    · exact hgid
  obtain ⟨hrows3, hretired3, hlist3⟩ := removeFlagged_applied hd.tidy hown2 hflag
  rw [hd.startedId, hstart0] at hrows3 hretired3
  obtain ⟨honly', hlist'⟩ := setListing_spec s3 group (resort opts s3 (s3.listing group.id))
  rw [← hs'] at honly' hlist'
  have hperm := resort_perm opts s3 (s3.listing group.id)
  refine ⟨hcleared, ?_, ?_, ?_, ?_, ?_⟩
  · rw [hlist', hperm.nodup_iff, hlist3]
    exact hd.nodup.filter _
  · rw [hdiffed]
    intro id hid
    exact ⟨(hlisted2 id).1 (mem_flaggedIds hid).1, (mem_flaggedIds hid).2.1⟩
  · intro id
    rw [hdiffed, hlist', hperm.mem_iff, hlist3, mem_filter, hlisted2, Bool.not_eq_true', ← Bool.not_eq_true, contains_iff_mem]
  · intro id
    rw [hdiffed, RowOf, honly'.profiles, ← RowOf, hrows3, hd.rows, hnewRow, hstart0, and_assoc]
  · rw [hdiffed, honly'.retiredProfileId, hretired3, hd.retiredProfileId, hretired1, hstart0]

/-- For every group, running profile, option and document: after a refresh that went through and did
not clear the group, the group lists exactly its rows if and only if every row it did not list before
was the retired profile and, where there is such a row, the running profile does not leave. -/
theorem refresh_lists_rows_iff (opts : Options) (faults : RefreshFaults) (group : Group)
    (download : Download) (s s' : Store) (hs : Settled s group) (hparsed : ∀ p ∈ download.profiles, p.id < 0)
    (hdone : applyRefreshDiff opts faults group download s = (s', .done true)) : ListsItsRows s' group.id ↔
    ∀ id, RowOf s group.id id → id ∉ s.listing group.id → id = s.retiredProfileId ∧ ¬ RunningLeaves opts faults group download s := by
  have h := refreshed_of_done hs hparsed hdone
  have hfound : s.startedId ∈ doomedProfiles s group → ((s.getProfile s.startedId).isSome = true ↔ RowOf s group.id s.startedId) := by
    intro hin
    rw [Option.isSome_iff_exists]
    exact hs.found_iff (members_listed (doomed_members hin))
  have hgone : (RunningLeaves opts faults group download s → s'.retiredProfileId = s.startedId) ∧
      (¬ RunningLeaves opts faults group download s → s'.retiredProfileId = s.retiredProfileId) := by
    rw [RunningLeaves, h.retired]
    refine ⟨?_, ?_⟩
    · rintro (⟨hin, hrow⟩ | hin | hin)
      · simp only [hin, (hfound hin).2 hrow, and_self, if_true, ite_self]
      · simp only [hin, if_true, ite_self]
      · rw [if_pos hin]
    · intro hno
      rw [not_or, not_or] at hno
      rw [if_neg hno.2.2, if_neg hno.2.1, if_neg]
      rintro ⟨hin, hsome⟩
      exact hno.1 ⟨hin, (hfound hin).1 hsome⟩
  have hbefore : s.retiredProfileId ∉ s.listing group.id := by
    rw [Store.listing, hs.found]
    exact hs.unlisted
  rw [← lists_rows_of_sets (RowOf s group.id) (· ∈ s.listing group.id) _ _ _ _ _ _ s.startedId
    s.retiredProfileId s'.retiredProfileId (RunningLeaves opts faults group download s)
    (mem_listing_iff hs) (sticky_saved hs) (fun _ => doomed_members_saved)
    (mem_staleIds_saved hs h.cleared) h.flagged (newIds_saved hs) hbefore Iff.rfl hgone]
  constructor
  · intro hlists id
    rw [← h.listed, ← h.rows]
    exact hlists.exact id
  · intro hall
    refine ⟨h.nodup, fun id => ?_⟩
    rw [h.listed, h.rows]
    exact hall id

/-! ## Two refreshes -/

/-- The group lists profile 2. Profile 1 was retired while it was running. -/
def retiredStore (startedId : Int) : Store where
  tables :=
    { profiles := [⟨1, 1, "vless", 0, "a"⟩, ⟨2, 1, "vless", 0, "b"⟩]
      groups := [⟨1, false, "https://sub", false, [2]⟩]
      profileLastId := 2
      retiredProfileId := 1
      issued := by decide }
  identityMap := []
  tombstones := []
  memMap := []
  groupTombstones := []
  startedId := startedId
  retiredProfileId := 1
  currentGroup := 1
  subClear := false

def retiredGroup : Group := ⟨1, false, "https://sub", false, [2]⟩

/-- The identity of a profile is its content, no option is on. -/
def plainOptions : Options where
  identityKeyOf p := p.content
  display p := p.content
  flagged _ _ := false
  keepsSorted := false
  less _ _ _ := false

def noFaults : RefreshFaults := ⟨⟨true, .done, .stored, true⟩, ⟨true, .done, .stored, true⟩, ⟨true, .done, .stored, true⟩⟩

/-- A document without profile 2. -/
def newServer : Download := ⟨"https://sub", [⟨-1, -1, "vless", 0, "c"⟩]⟩

theorem rowOf_retiredStore (startedId gid id : Int) : RowOf (retiredStore startedId) gid id ↔ gid = 1 ∧ (id = 1 ∨ id = 2) := by
  simp only [RowOf, retiredStore, mem_cons, not_mem_nil, or_false]
  constructor
  · rintro ⟨p, rfl | rfl, rfl, rfl⟩
    · exact ⟨rfl, .inl rfl⟩
    · exact ⟨rfl, .inr rfl⟩
  · rintro ⟨rfl, rfl | rfl⟩
    · exact ⟨_, .inl rfl, rfl, rfl⟩
    · exact ⟨_, .inr rfl, rfl, rfl⟩

theorem settled_retiredStore (startedId : Int) (h : startedId ≤ 2) : Settled (retiredStore startedId) retiredGroup := by
  have hcounter : (retiredStore startedId).tables.profileLastId = 2 := rfl
  have hretired : (retiredStore startedId).retiredProfileId = 1 := rfl
  refine ⟨rfl, by decide, ⟨?_, ?_, ?_⟩, ?_, h, ?_, by decide, ?_, ?_⟩
  · intro id p hp
    have hfound : profileIn (retiredStore startedId).tables.profiles id = some p := hp
    exact ⟨p, mem_of_find?_eq_some hfound, getProfile_id hp, rfl⟩
  · intro p hp q hq _
    simp only [retiredStore, mem_cons, not_mem_nil, or_false] at hp hq
    rcases hp with rfl | rfl <;> rcases hq with rfl | rfl <;> rfl
  · intro p hp
    simp only [retiredStore, mem_cons, not_mem_nil, or_false] at hp
    rcases hp with rfl | rfl <;> decide
  · rw [hcounter]
    decide
  · rw [hcounter, hretired]
    decide
  · intro id _ gid hrow
    exact ((rowOf_retiredStore startedId gid id).1 hrow).1
  · rw [hretired]
    decide

theorem refresh_lists_rows_running : ListsItsRows (applyRefreshDiff plainOptions noFaults retiredGroup newServer (retiredStore 1)).1 1 := by
  apply (refresh_lists_rows_iff plainOptions noFaults retiredGroup newServer (retiredStore 1) _
    (settled_retiredStore 1 (by decide)) (by decide) (Prod.ext rfl (by decide))).2
  intro id hrow hout
  obtain ⟨-, rfl | rfl⟩ := (rowOf_retiredStore 1 1 id).1 hrow
  · refine ⟨rfl, ?_⟩
    rintro (⟨hdoomed, -⟩ | hstale | hflagged)
    · cases hdoomed
    · exact absurd hstale (by decide)
    · cases hflagged
  · exact absurd (by decide) hout

/-- The user switched from the retired profile 1 to profile 2, and the subscription drops profile 2:
the repository forgets profile 1, whose row no group lists. -/
theorem refresh_orphans_retired : Settled (retiredStore 2) retiredGroup ∧ ListsItsRows (retiredStore 2) 1 ∧
    (applyRefreshDiff plainOptions noFaults retiredGroup newServer (retiredStore 2)).2 = .done true ∧
    ¬ ListsItsRows (applyRefreshDiff plainOptions noFaults retiredGroup newServer (retiredStore 2)).1 1 := by
  have hlisting : (retiredStore 2).listing 1 = [2] := by decide
  refine ⟨settled_retiredStore 2 (by decide), ⟨by decide, ?_⟩, by decide, ?_⟩
  · intro id
    have hretired : (retiredStore 2).retiredProfileId = 1 := rfl
    rw [hlisting, rowOf_retiredStore, hretired, mem_singleton]
    omega
  · intro h
    have hrow : RowOf (applyRefreshDiff plainOptions noFaults retiredGroup newServer
        (retiredStore 2)).1 1 1 := ⟨⟨1, 1, "vless", 0, "a"⟩, by decide, rfl, rfl⟩
    have hlisted := (h.exact 1).2 ⟨hrow, by decide⟩
    exact absurd hlisted (by decide)

end Throne.Configs.Sub
