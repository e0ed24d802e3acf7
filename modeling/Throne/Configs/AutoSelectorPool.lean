import Throne.Configs.AutoSelectorPlan
import Mathlib.Algebra.Ring.Nat

/-!
# The pool of an auto selector

What `PlanAutoSelector` makes of the profiles of the tracked groups. The loop over the groups divides them into
members, failed ones and skipped ones (`divided_scan`), each by what the first group that lists it says
(`memberSkip`). The order puts the persisted pool in front (`placed_order`) and sorts the rest by latency
(`newcomers_ranked`). `plan_sound` is about every selector, groups, profiles and readings of the clock.
-/

namespace Throne.Configs.AutoSelector

open Lib.Texts Lib.Json Database.Routes List

variable {patterns : Patterns} {repo : Repo} {selector : Selector} {now later self : Int}

/-! ## The loop over the groups -/

/-- The profiles of the groups, in the order of the loop. -/
def listings (groups : List Group) : List (Group × Int) :=
  groups.flatMap fun group => group.profiles.map fun id => (group, id)

theorem scanGroups_listings (groups : List Group) : scanGroups patterns repo selector now self groups = (listings groups).foldl
    (fun s listing => s.consider patterns repo selector now self listing.1 listing.2) .start := by
  rw [scanGroups, listings, foldl_flatMap]
  congr 1
  funext s group
  rw [foldl_map]

/-- What the first listing of a profile says of it. -/
def firstSkip (patterns : Patterns) (repo : Repo) (selector : Selector) (now : Int) (done : List (Group × Int))
    (id : Int) : Option AutoSelectorSkip :=
  (done.find? fun listing => listing.2 = id).map fun listing => skipOf patterns repo selector now listing.1 id

/-- What the first group that lists a profile says of it; none for a profile that no group lists. -/
def memberSkip (patterns : Patterns) (repo : Repo) (selector : Selector) (now : Int) (groups : List Group) (id : Int) : Option AutoSelectorSkip :=
  (groups.find? fun group => group.profiles.contains id).map fun group => skipOf patterns repo selector now group id

theorem find_listing (group : Group) (ids : List Int) (id : Int) : (ids.map fun id => (group, id)).find? (fun listing => listing.2 = id) =
    if ids.contains id then some (group, id) else none := by
  induction ids with
  | nil => rfl
  | cons first ids ih =>
    rw [map_cons, find?_cons, contains_cons]
    by_cases h : first = id
    · rw [h, decide_eq_true rfl, beq_self_eq_true]
      rfl
    · rw [decide_eq_false h, ih, beq_false_of_ne (Ne.symm h), Bool.false_or]

theorem firstSkip_listings (groups : List Group) (id : Int) :
    firstSkip patterns repo selector now (listings groups) id = memberSkip patterns repo selector now groups id := by
  have hfind : (listings groups).find? (fun listing => listing.2 = id) =
      (groups.find? fun group => group.profiles.contains id).map fun group => (group, id) := by
    induction groups with
    | nil => rfl
    | cons group groups ih =>
      rw [listings, flatMap_cons, find?_append, find_listing, find?_cons]
      cases group.profiles.contains id with
      | true => rfl
      | false => exact ih
  rw [firstSkip, memberSkip, hfind, Option.map_map]
  rfl

/-- Later listings of a profile change nothing. -/
theorem firstSkip_append {done : List (Group × Int)} {id : Int} (h : ∃ group, (group, id) ∈ done) (more : List (Group × Int)) :
    firstSkip patterns repo selector now (done ++ more) id = firstSkip patterns repo selector now done id := by
  obtain ⟨group, hmem⟩ := h
  have hsome : ((done.find? fun listing => listing.2 = id)).isSome = true :=
    find?_isSome.2 ⟨_, hmem, decide_eq_true rfl⟩
  rw [firstSkip, firstSkip, find?_append, Option.or_of_isSome hsome]

theorem firstSkip_new {done : List (Group × Int)} {group : Group} {id : Int} (h : ∀ group, (group, id) ∉ done) :
    firstSkip patterns repo selector now (done ++ [(group, id)]) id = some (skipOf patterns repo selector now group id) := by
  have hnone : done.find? (fun listing => listing.2 = id) = none := by
    rw [find?_eq_none]
    rintro ⟨other, x⟩ hmem hx
    rw [decide_eq_true_iff] at hx
    exact h other (hx ▸ hmem)
  rw [firstSkip, find?_append, hnone, find?_cons, decide_eq_true rfl]
  rfl

/-- The profiles listed so far are members, failed or skipped; `own` is the selector's id. -/
structure Divided (patterns : Patterns) (repo : Repo) (selector : Selector) (now own : Int)
    (done : List (Group × Int)) (s : MemberScan) : Prop where
  seen : ∀ id, id ∈ s.seen ↔ id ≠ own ∧ ∃ group, (group, id) ∈ done
  members : ∀ id, id ∈ s.members ↔ id ∈ s.seen ∧ firstSkip patterns repo selector now done id = some .None
  unavailable : ∀ id, id ∈ s.unavailable ↔ id ∈ s.seen ∧ firstSkip patterns repo selector now done id = some .Unavailable
  members_nodup : s.members.Nodup
  unavailable_nodup : s.unavailable.Nodup
  counted : s.membersInGroups = s.members.length + s.unavailable.length + s.skips.length

theorem divided_start : Divided patterns repo selector now self [] .start where
  seen id := by simp [MemberScan.start]
  members id := by simp [MemberScan.start]
  unavailable id := by simp [MemberScan.start]
  members_nodup := nodup_nil
  unavailable_nodup := nodup_nil
  counted := rfl

section Consider

variable {done : List (Group × Int)} {s : MemberScan} {group : Group} {id : Int}

/-- The profiles seen, with a new one. -/
theorem seen_new (h : Divided patterns repo selector now self done s) (hself : id ≠ self) (x : Int) :
    x ∈ id :: s.seen ↔ x ≠ self ∧ ∃ other, (other, x) ∈ done ++ [(group, id)] := by
  rw [mem_cons, h.seen]
  constructor
  · rintro (rfl | ⟨hx, other, hmem⟩)
    · exact ⟨hself, group, mem_append_right _ (mem_singleton_self _)⟩
    · exact ⟨hx, other, mem_append_left _ hmem⟩
  · rintro ⟨hx, other, hmem⟩
    rcases mem_append.1 hmem with hmem | hmem
    · exact .inr ⟨hx, other, hmem⟩
    · exact .inl (Prod.mk.inj (mem_singleton.1 hmem)).2

variable (group) in
/-- The profiles of a kind, with a new one where it is of that kind. -/
theorem kind_new (h : Divided patterns repo selector now self done s) (hself : id ≠ self) (hunseen : id ∉ s.seen)
    {kind : AutoSelectorSkip} {ids : List Int}
    (hids : ∀ x, x ∈ ids ↔ x ∈ s.seen ∧ firstSkip patterns repo selector now done x = some kind) (x : Int) :
    x ∈ (if skipOf patterns repo selector now group id = kind then ids ++ [id] else ids) ↔
    x ∈ id :: s.seen ∧ firstSkip patterns repo selector now (done ++ [(group, id)]) x = some kind := by
  have hfresh : ∀ other, (other, id) ∉ done := fun other hmem => hunseen ((h.seen id).2 ⟨hself, other, hmem⟩)
  by_cases hx : x = id
  · rw [hx, firstSkip_new hfresh, Option.some_inj]
    split
    · next hkind =>
      exact iff_of_true (mem_append_right _ (mem_singleton_self _)) ⟨mem_cons_self, hkind⟩
    · next hkind => exact iff_of_false (fun hmem => hunseen ((hids id).1 hmem).1) fun hboth => hkind hboth.2
  · have hold : x ∈ s.seen → firstSkip patterns repo selector now (done ++ [(group, id)]) x =
        firstSkip patterns repo selector now done x := fun hseen => firstSkip_append ((h.seen x).1 hseen).2 _
    have hlist : x ∈ (if skipOf patterns repo selector now group id = kind then ids ++ [id] else ids) ↔ x ∈ ids := by
      split
      · rw [mem_append, mem_singleton, or_iff_left hx]
      · exact Iff.rfl
    rw [hlist, hids, mem_cons, or_iff_right hx]
    exact and_congr_right fun hseen => by rw [hold hseen]

/-- One profile more. -/
theorem divided_consider (h : Divided patterns repo selector now self done s) (group : Group) (id : Int) :
    Divided patterns repo selector now self (done ++ [(group, id)]) (s.consider patterns repo selector now self group id) := by
  rw [MemberScan.consider]
  split
  · next hskip =>
    have hold : ∀ x, x ∈ s.seen → firstSkip patterns repo selector now (done ++ [(group, id)]) x =
        firstSkip patterns repo selector now done x := fun x hx => firstSkip_append ((h.seen x).1 hx).2 _
    refine ⟨?_, ?_, ?_, h.members_nodup, h.unavailable_nodup, h.counted⟩
    · intro x
      rw [h.seen]
      constructor
      · rintro ⟨hself, other, hmem⟩
        exact ⟨hself, other, mem_append_left _ hmem⟩
      · rintro ⟨hself, other, hmem⟩
        rcases mem_append.1 hmem with hmem | hmem
        · exact ⟨hself, other, hmem⟩
        · obtain ⟨-, rfl⟩ := Prod.mk.inj (mem_singleton.1 hmem)
          rcases hskip with rfl | hseen
          · exact absurd rfl hself
          · exact (h.seen x).1 hseen
    · intro x
      rw [h.members]
      exact and_congr_right fun hx => by rw [hold x hx]
    · intro x
      rw [h.unavailable]
      exact and_congr_right fun hx => by rw [hold x hx]
  · next hnew =>
    rw [not_or] at hnew
    obtain ⟨hself, hunseen⟩ := hnew
    have hmembers := fun x => kind_new group h hself hunseen h.members x
    have hfailed := fun x => kind_new group h hself hunseen h.unavailable x
    have hcount := h.counted
    dsimp only
    split
    · next hkind =>
      rw [hkind, if_pos rfl] at hmembers
      rw [hkind, if_neg (by decide)] at hfailed
      refine ⟨seen_new h hself, hmembers, hfailed, ?_, h.unavailable_nodup, ?_⟩
      · rw [← concat_eq_append]
        exact List.Nodup.concat (fun hmem => hunseen ((h.members id).1 hmem).1) h.members_nodup
      · dsimp only
        rw [length_append, length_singleton]
        omega
    · next hkind =>
      rw [hkind, if_neg (by decide)] at hmembers
      rw [hkind, if_pos rfl] at hfailed
      refine ⟨seen_new h hself, hmembers, hfailed, h.members_nodup, ?_, ?_⟩
      · rw [← concat_eq_append]
        exact List.Nodup.concat (fun hmem => hunseen ((h.unavailable id).1 hmem).1) h.unavailable_nodup
      · dsimp only
        rw [length_append, length_singleton]
        omega
    · next hmember hfail =>
      rw [if_neg hmember] at hmembers
      rw [if_neg hfail] at hfailed
      refine ⟨seen_new h hself, hmembers, hfailed, h.members_nodup, h.unavailable_nodup, ?_⟩
      dsimp only
      rw [length_append, length_singleton]
      omega

end Consider

theorem divided_scan (groups : List Group) :
    Divided patterns repo selector now self (listings groups) (scanGroups patterns repo selector now self groups) := by
  have hrun : ∀ (more done : List (Group × Int)) (s : MemberScan), Divided patterns repo selector now self done s →
        Divided patterns repo selector now self (done ++ more) (more.foldl
          (fun s listing => s.consider patterns repo selector now self listing.1 listing.2) s) := by
    intro more
    induction more with
    | nil =>
      intro done s h
      rw [append_nil]
      exact h
    | cons listing more ih =>
      intro done s h
      have hnext := ih (done ++ [listing]) _ (divided_consider h listing.1 listing.2)
      rw [append_assoc, singleton_append] at hnext
      exact hnext
  rw [scanGroups_listings]
  exact hrun (listings groups) [] .start divided_start

/-! ## Eligible profiles -/

/-- An eligible member: its group lets it be one, and its last test is no reason against it. When that is a reason
against every profile that could be one, it counts for none. -/
def Eligible (patterns : Patterns) (repo : Repo) (selector : Selector) (now self : Int) (groups : List Group) (id : Int) : Prop :=
  id ≠ self ∧ (memberSkip patterns repo selector now groups id = some .None ∨ memberSkip patterns repo selector now groups id = some .Unavailable ∧
      ∀ other, other ≠ self → memberSkip patterns repo selector now groups other ≠ some .None)

section Result

variable {groups : List Group}

theorem listed_of_skip {id : Int} {skip : AutoSelectorSkip}
    (h : memberSkip patterns repo selector now groups id = some skip) : ∃ group, (group, id) ∈ listings groups := by
  obtain ⟨group, hfind, -⟩ := Option.map_eq_some_iff.1 h
  have hlists : group.profiles.contains id = true :=
    by simpa using find?_some hfind
  exact ⟨group, mem_flatMap.2 ⟨group, mem_of_find?_eq_some hfind, mem_map.2 ⟨id, contains_iff_mem.1 hlists, rfl⟩⟩⟩

theorem mem_members {id : Int} : id ∈ (scanGroups patterns repo selector now self groups).members ↔
    id ≠ self ∧ memberSkip patterns repo selector now groups id = some .None := by
  have h := @divided_scan patterns repo selector now self groups
  rw [h.members, h.seen, firstSkip_listings]
  constructor
  · rintro ⟨⟨hself, -⟩, hskip⟩
    exact ⟨hself, hskip⟩
  · rintro ⟨hself, hskip⟩
    exact ⟨⟨hself, listed_of_skip hskip⟩, hskip⟩

theorem mem_unavailable {id : Int} : id ∈ (scanGroups patterns repo selector now self groups).unavailable ↔
    id ≠ self ∧ memberSkip patterns repo selector now groups id = some .Unavailable := by
  have h := @divided_scan patterns repo selector now self groups
  rw [h.unavailable, h.seen, firstSkip_listings]
  constructor
  · rintro ⟨⟨hself, -⟩, hskip⟩
    exact ⟨hself, hskip⟩
  · rintro ⟨hself, hskip⟩
    exact ⟨⟨hself, listed_of_skip hskip⟩, hskip⟩

/-- The loop ends with the eligible profiles. -/
theorem mem_result {id : Int} : id ∈ (scanGroups patterns repo selector now self groups).result ↔
    Eligible patterns repo selector now self groups id := by
  rw [MemberScan.result, Eligible]
  have hworking : (scanGroups patterns repo selector now self groups).members = [] ↔
      ∀ other, other ≠ self → memberSkip patterns repo selector now groups other ≠ some .None := by
    rw [eq_nil_iff_forall_not_mem]
    exact forall_congr' fun other => by rw [mem_members, not_and]
  split
  · next houtage =>
    rw [Bool.and_eq_true, List.isEmpty_iff] at houtage
    have hnone := hworking.1 houtage.1
    rw [mem_unavailable]
    constructor
    · rintro ⟨hself, hskip⟩
      exact ⟨hself, .inr ⟨hskip, hnone⟩⟩
    · rintro ⟨hself, hskip | ⟨hskip, -⟩⟩
      · exact absurd hskip (hnone id hself)
      · exact ⟨hself, hskip⟩
  · next hworks =>
    rw [mem_members]
    constructor
    · rintro ⟨hself, hskip⟩
      exact ⟨hself, .inl hskip⟩
    · rintro ⟨hself, hskip | ⟨hskip, hnone⟩⟩
      · exact ⟨hself, hskip⟩
      · have hfailed : (scanGroups patterns repo selector now self groups).unavailable ≠ [] :=
          ne_nil_of_mem (mem_unavailable.2 ⟨hself, hskip⟩)
        rw [hworking.2 hnone, Bool.and_eq_true, Bool.not_eq_true', isEmpty_eq_false_iff] at hworks
        exact absurd ⟨rfl, hfailed⟩ hworks

theorem result_nodup : (scanGroups patterns repo selector now self groups).result.Nodup := by
  have h := @divided_scan patterns repo selector now self groups
  rw [MemberScan.result]
  split
  · exact h.unavailable_nodup
  · exact h.members_nodup

/-- Every kind of skip is counted once. -/
theorem sum_counts (skips : List AutoSelectorSkip) : (AutoSelectorSkip.all.map fun skip => skips.count skip).sum = skips.length := by
  induction skips with
  | nil => rfl
  | cons skip skips ih =>
    have hone : (AutoSelectorSkip.all.map fun other => if skip == other then 1 else 0).sum = 1 := by
      cases skip <;> rfl
    have hcons : (AutoSelectorSkip.all.map fun other => (skip :: skips).count other) =
        AutoSelectorSkip.all.map fun other => skips.count other + if skip == other then 1 else 0 :=
      map_congr_left fun other _ => count_cons
    rw [hcons, sum_map_add, ih, hone, length_cons]

theorem sum_filter_ne_zero (entries : List (AutoSelectorSkip × Nat)) :
    ((entries.filter fun entry => entry.2 != 0).map Prod.snd).sum = (entries.map Prod.snd).sum := by
  induction entries with
  | nil => rfl
  | cons entry entries ih =>
    rw [map_cons, sum_cons, filter_cons]
    split
    · rw [map_cons, sum_cons, ih]
    · next hzero =>
      rw [Bool.not_eq_true, bne_eq_false_iff_eq] at hzero
      rw [ih, hzero, Nat.zero_add]

/-- Every profile of the groups is eligible or counted as skipped. -/
theorem membersInGroups_eq : (scanGroups patterns repo selector now self groups).membersInGroups =
    (scanGroups patterns repo selector now self groups).result.length +
    ((scanGroups patterns repo selector now self groups).skipped.map Prod.snd).sum := by
  have h := @divided_scan patterns repo selector now self groups
  have hcount (skips : List AutoSelectorSkip) :
      ((AutoSelectorSkip.all.map fun skip => (skip, skips.count skip)).map Prod.snd).sum = skips.length := by
    rw [map_map, ← sum_counts skips]
    rfl
  rw [h.counted, MemberScan.skipped, sum_filter_ne_zero, hcount, MemberScan.result]
  cases hmembers : (scanGroups patterns repo selector now self groups).members with
  | nil =>
    rw [isEmpty_nil, if_pos rfl, Bool.true_and]
    cases hfailed : (scanGroups patterns repo selector now self groups).unavailable with
    | nil => rfl
    | cons id ids =>
      rw [isEmpty_cons, Bool.not_false, if_pos rfl, length_nil, Nat.zero_add]
  | cons id ids =>
    rw [isEmpty_cons, if_neg Bool.false_ne_true, Bool.false_and, if_neg Bool.false_ne_true, length_append, length_replicate]
    omega

end Result

/-! ## The order -/

/-- The first occurrences of a list's values. -/
def firsts (ids : List Int) : List Int := ids.reverse.dedup.reverse

theorem mem_firsts {ids : List Int} {id : Int} : id ∈ firsts ids ↔ id ∈ ids := by
  rw [firsts, mem_reverse, mem_dedup, mem_reverse]

theorem firsts_nodup (ids : List Int) : (firsts ids).Nodup := nodup_reverse.2 (nodup_dedup _)

/-- They stand in the order of the list, also when it is filtered before. -/
theorem firsts_order (p : Int → Bool) (ids : List Int) : (firsts (ids.filter p)).Pairwise fun a b => ids.idxOf a < ids.idxOf b := by
  induction ids using List.reverseRecOn with
  | nil => exact List.Pairwise.nil
  | append_singleton ids id ih =>
    have hin : ∀ a ∈ firsts (ids.filter p), a ∈ ids := fun a ha => (mem_filter.1 (mem_firsts.1 ha)).1
    have hold : (firsts (ids.filter p)).Pairwise fun a b => (ids ++ [id]).idxOf a < (ids ++ [id]).idxOf b := by
      refine ih.imp_of_mem ?_
      intro a b ha hb hlt
      rw [idxOf_append_of_mem (hin a ha), idxOf_append_of_mem (hin b hb)]
      exact hlt
    rw [filter_append, filter_singleton]
    cases hp : p id with
    | false =>
      rw [cond_false, append_nil]
      exact hold
    | true =>
      rw [cond_true]
      by_cases hmem : id ∈ ids.filter p
      · have hsame : firsts (ids.filter p ++ [id]) = firsts (ids.filter p) := by
          rw [firsts, reverse_append, reverse_singleton, singleton_append, dedup_cons_of_mem (mem_reverse.2 hmem)]
          rfl
        rw [hsame]
        exact hold
      · have hnew : firsts (ids.filter p ++ [id]) = firsts (ids.filter p) ++ [id] := by
          rw [firsts, reverse_append, reverse_singleton, singleton_append, dedup_cons_of_notMem (mt mem_reverse.1 hmem), reverse_cons]
          rfl
        have hfresh : id ∉ ids := fun h => hmem (mem_filter.2 ⟨h, hp⟩)
        rw [hnew, pairwise_append]
        refine ⟨hold, pairwise_singleton _ _, ?_⟩
        intro a ha b hb
        rw [mem_singleton.1 hb, idxOf_append_of_mem (hin a ha), idxOf_append_of_notMem hfresh]
        exact (idxOf_lt_length_of_mem (hin a ha)).trans_le (Nat.le_add_right _ _)

/-- `byLatency` never says that both of two come first, and is transitive where it says neither. -/
theorem byLatency_total (a b : Int) : (!byLatency b a || !byLatency a b) = true := by
  simp only [byLatency, latencyRank]
  grind

theorem byLatency_trans (a b c : Int) (hab : (!byLatency b a) = true) (hbc : (!byLatency c b) = true) : (!byLatency c a) = true := by
  simp only [byLatency, latencyRank] at *
  grind

theorem rank_of_byLatency {a b : Int} (h : (!byLatency b a) = true) : latencyRank a ≤ latencyRank b := by
  rw [Bool.not_eq_true', byLatency] at h
  split at h
  · next hne =>
    rw [decide_eq_false_iff_not] at h
    exact not_lt.1 h
  · next heq =>
    rw [not_not] at heq
    exact heq.ge

theorem newcomers_ranked (repo : Repo) (ids : List Int) (selector : Selector) (later : Int) :
    (sortByLatency repo ids selector later).Pairwise fun a b =>
      latencyRank (effectiveLatency (repo.profile a) selector later) ≤ latencyRank (effectiveLatency (repo.profile b) selector later) := by
  rw [sortByLatency]
  refine (pairwise_mergeSort ?_ ?_ ids).imp ?_
  · exact fun a b c => byLatency_trans _ _ _
  · exact fun a b => byLatency_total _ _
  · exact fun h => rank_of_byLatency h

theorem orderMembers_eq (repo : Repo) (members persistedPool : List Int) (selector : Selector) (later : Int) :
    orderMembers repo members persistedPool selector later = firsts (persistedPool.filter fun id => members.contains id) ++ sortByLatency repo
    (members.filter fun id => !(firsts (persistedPool.filter fun id => members.contains id)).contains id) selector later :=
  rfl

/-! ## The plan -/

/-- What a pool is, beside the groups and limits of the selector as it was read. -/
structure SoundPool (patterns : Patterns) (repo : Repo) (limits : Selector) (now later own : Int) (groups : List Group)
    (plan : AutoSelectorPlan) : Prop where
  nodup : plan.pool.Nodup
  eligible : ∀ id ∈ plan.pool, Eligible patterns repo limits now own groups id
  /-- The members are the eligible profiles, each once. -/
  counted : ∃ members : List Int, members.Nodup ∧
    (∀ id, id ∈ members ↔ Eligible patterns repo limits now own groups id) ∧ plan.eligible = members.length
  size : (plan.pool.length : Int) = min limits.poolCap plan.eligible
  /-- The persisted ids that are eligible stay in front and in order; the others follow by latency rank. -/
  ordered : ∃ kept newcomers : List Int, plan.pool = (kept ++ newcomers).take limits.poolCap.toNat ∧
    (∀ id, id ∈ kept ↔ id ∈ limits.pool ∧ Eligible patterns repo limits now own groups id) ∧
    (kept.Pairwise fun a b => limits.pool.idxOf a < limits.pool.idxOf b) ∧
    (∀ id, id ∈ newcomers ↔ Eligible patterns repo limits now own groups id ∧ id ∉ limits.pool) ∧
    newcomers.Pairwise fun a b => latencyRank (effectiveLatency (repo.profile a) limits later) ≤
      latencyRank (effectiveLatency (repo.profile b) limits later)
  build : plan.build = plan.pool.take (min limits.buildLimit.toNat plan.pool.length)
  total : plan.membersInGroups = plan.eligible + (plan.skipped.map Prod.snd).sum

/-- A plan without error has a sound pool; one with an error has no profile that could be a member, were it not for its
last test. -/
structure PlanSound (patterns : Patterns) (repo : Repo) (limits : Selector) (now later own : Int) (groups : List Group)
    (plan : AutoSelectorPlan) : Prop where
  pool : plan.error = [] → SoundPool patterns repo limits now later own groups plan
  error : plan.error ≠ [] → ∀ id skip, id ≠ own → memberSkip patterns repo limits now groups id = some skip → ¬skip.usable

/-- The order of some members. -/
theorem ordered_members {members persisted : List Int} (hnodup : members.Nodup) :
    ∃ kept newcomers : List Int, orderMembers repo members persisted selector later = kept ++ newcomers ∧
    (∀ id, id ∈ kept ↔ id ∈ persisted ∧ id ∈ members) ∧ (kept.Pairwise fun a b => persisted.idxOf a < persisted.idxOf b) ∧
    (∀ id, id ∈ newcomers ↔ id ∈ members ∧ id ∉ persisted) ∧
    (newcomers.Pairwise fun a b => latencyRank (effectiveLatency (repo.profile a) selector later) ≤
    latencyRank (effectiveLatency (repo.profile b) selector later)) ∧ (kept ++ newcomers).Perm members := by
  have hkept : ∀ id, id ∈ firsts (persisted.filter fun id => members.contains id) ↔ id ∈ persisted ∧ id ∈ members := by
    intro id
    rw [mem_firsts, mem_filter, contains_iff_mem]
  have hnew : ∀ id, id ∈ sortByLatency repo (members.filter fun id => !(firsts (persisted.filter fun id => members.contains id)).contains id)
      selector later ↔ id ∈ members ∧ id ∉ persisted := by
    intro id
    rw [sortByLatency, mem_mergeSort, mem_filter, Bool.not_eq_true', Bool.eq_false_iff, ne_eq, contains_iff_mem, hkept]
    tauto
  refine ⟨_, _, orderMembers_eq repo members persisted selector later, hkept, firsts_order _ _, hnew, newcomers_ranked _ _ _ _, ?_⟩
  refine (perm_ext_iff_of_nodup ?_ hnodup).2 ?_
  · refine nodup_append.2 ⟨firsts_nodup _, ?_, ?_⟩
    · exact (mergeSort_perm _ _).nodup_iff.2 (hnodup.filter _)
    · intro a ha b hb hab
      exact ((hnew b).1 hb).2 (hab ▸ ((hkept a).1 ha).1)
  · intro id
    rw [mem_append, hkept, hnew]
    tauto

theorem sound_of_error {groups : List Group} {plan : AutoSelectorPlan} (herror : plan.error ≠ [])
    (h : ∀ id skip, id ≠ self → memberSkip patterns repo selector now groups id = some skip → ¬skip.usable) :
    PlanSound patterns repo selector now later self groups plan :=
  ⟨fun hnone => absurd hnone herror, fun _ => h⟩

/-- For every selector, groups, profiles and readings of the clock. -/
theorem plan_sound (patterns : Patterns) (repo : Repo) (selector : Selector) (now later self : Int) :
    PlanSound patterns repo selector.Normalize now later self (selector.Normalize.gids.filterMap repo.group)
    (PlanAutoSelectorAt patterns repo selector now later self) := by
  have hnone (groups : List Group) (hgroups : groups = []) (id : Int) (skip : AutoSelectorSkip)
      (hskip : memberSkip patterns repo selector.Normalize now groups id = some skip) : ¬skip.usable := by
    rw [hgroups] at hskip
    exact absurd hskip (by simp [memberSkip])
  rw [PlanAutoSelectorAt]
  dsimp only
  split
  · next hgids =>
    apply sound_of_error
    · exact (by decide : "Auto selector tracks no group".toList ≠ [])
    · intro id skip _
      apply hnone
      rw [List.isEmpty_iff.1 hgids]
      rfl
  split
  · next hgroups =>
    apply sound_of_error
    · exact (by decide : "Auto selector points at a group that no longer exists".toList ≠ [])
    · exact fun id skip _ => hnone _ (List.isEmpty_iff.1 hgroups) id skip
  split
  · next hmembers =>
    apply sound_of_error
    · exact (by decide : "Auto selector has no usable members".toList ≠ [])
    intro id skip hself hskip husable
    have hno : ∀ id, ¬Eligible patterns repo selector.Normalize now self (selector.Normalize.gids.filterMap repo.group) id := by
      intro id heligible
      rw [← mem_result, List.isEmpty_iff.1 hmembers] at heligible
      exact not_mem_nil heligible
    rcases husable with rfl | rfl
    · exact hno id ⟨hself, .inl hskip⟩
    · exact hno id ⟨hself, .inr ⟨hskip, fun other hother hworks => hno other ⟨hother, .inl hworks⟩⟩⟩
  · refine ⟨fun _ => ?_, fun h => absurd rfl h⟩
    have hnodup := @result_nodup patterns repo selector.Normalize now self (selector.Normalize.gids.filterMap repo.group)
    obtain ⟨kept, newcomers, horder, hkept, hfirst, hnew, hranked, hperm⟩ :=
      @ordered_members repo selector.Normalize later _ selector.Normalize.pool hnodup
    have hcap : 0 ≤ selector.Normalize.poolCap := by
      have hone : 1 ≤ selector.Normalize.poolCap := le_min (le_max_right _ _) (by decide)
      omega
    rw [horder]
    constructor
    · exact (hperm.nodup_iff.2 hnodup).sublist (take_sublist _ _)
    · intro id hid
      exact mem_result.1 (hperm.mem_iff.1 (mem_of_mem_take hid))
    · exact ⟨_, hnodup, fun id => mem_result, rfl⟩
    · dsimp only
      rw [length_take, hperm.length_eq]
      omega
    · refine ⟨kept, newcomers, rfl, ?_, hfirst, ?_, hranked⟩
      · intro id
        rw [hkept, mem_result]
      · intro id
        rw [hnew, mem_result]
    · dsimp only
      rw [← take_eq_take_min]
    · exact membersInGroups_eq

/-! ## A profile in two groups -/

def serverOf (type : Text) : Profile := ⟨type, "server".toList, 1, "server".toList, 0, 0, [], [], [], []⟩

/-- Both groups list the server 3. The first one has proxies of the other core on both sides, the second has none. -/
def listedTwice : Repo where
  profile id :=
    if id = 3 then some (serverOf "vless".toList)
    else if id = 5 ∨ id = 6 then some (serverOf "xrayvless".toList)
    else none
  group gid :=
    if gid = 1 then some ⟨"first".toList, 5, 6, [3]⟩
    else if gid = 2 then some ⟨"second".toList, -1, -1, [3]⟩
    else none
  groupIds := [1, 2]
  numbered id p h := by
    split at h
    · omega
    split at h
    · omega
    · exact nomatch h

def twoGroups : Selector := ⟨[1, 2], [], [], true, 1440, 1000, 300, []⟩

/-- The first group decides: an error is reported, although the server would be usable in the second one. -/
theorem first_group_decides : (PlanAutoSelectorAt ⟨fun _ => none, id⟩ listedTwice twoGroups 0 0 0).error =
    "Auto selector has no usable members".toList ∧ ∃ group ∈ twoGroups.Normalize.gids.filterMap listedTwice.group, 3 ∈ group.profiles ∧
    skipOf ⟨fun _ => none, id⟩ listedTwice twoGroups.Normalize 0 group 3 = .None :=
  ⟨by decide, ⟨"second".toList, -1, -1, [3]⟩, mem_filterMap.2 ⟨2, by decide, rfl⟩, by decide, by decide⟩

end Throne.Configs.AutoSelector
