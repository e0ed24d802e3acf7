import Throne.Configs.Sub.GroupUpdater
import Throne.Configs.Sub.ReconcilePartition

/-!
# A refresh to its end

`applyRefresh` of `src/src/configs/sub/GroupUpdater.cpp` after its transaction, for a group that is
not cleared: the diff is carried out, the listing is built again from the arrivals, the auto
selectors and the rows that were kept, the stale rows are deleted, and the options of the group may
flag more profiles for removal.

`Throne.Configs.Sub.GroupUpdater` has the part before. There the sink keeps the unclaimed profiles
as one list; `chunk_length` connects it with the queues of the content index.
-/

namespace Throne.Configs.Sub

open Database List

/-! ## Digests and options -/

/-- What the refresh asks about profiles: the identity digest and the display name of an outbound,
which profiles the enabled options flag among the listed ones, and the kept sort of the group. -/
structure Options where
  identityKeyOf : Profile → String
  display : Profile → String
  flagged : List Profile → Profile → Bool
  keepsSorted : Bool
  less : Store → Int → Int → Bool

/-- The answers of the database to the transaction and to the two deletes after it. -/
structure RefreshFaults where
  transaction : Faults
  stale : Faults
  flagged : Faults

variable (opts : Options)

def oldEntryOf (p : Profile) : Subscription.OldEntry String String := ⟨p.id, ⟨p.content, opts.identityKeyOf p⟩, opts.display p⟩

def arrivalOf (p : Profile) : Subscription.Arrival String String := ⟨⟨p.content, opts.identityKeyOf p⟩, opts.display p⟩

/-! ## Before the transaction -/

variable (s : Store) (group : Group)

/-- The auto selectors of the listing with their places. -/
def sticky : List (Int × Nat) :=
  group.profiles.zipIdx.filter fun place => (s.getProfileIdsByType "autoselector").contains place.1

def survivors : List Int :=
  (members s group).filter fun id => !(doomedProfiles s group).contains id

/-- Nobody survived `sub_clear`: an import into an empty group, without a diff. -/
def cleared : Bool := s.subClear && (survivors s group).isEmpty

def oldEntries : List (Subscription.OldEntry String String) := (s.getProfileBatch (survivors s group)).map (oldEntryOf opts)

/-- The survivors `keep_working` protects. -/
def working : List Int :=
  if group.keepWorking then
    ((s.getProfileBatch (survivors s group)).filter (·.isWorking)).map (·.id)
  else []

variable (document : List Profile)

/-- The sink with the ids of the flush. -/
def flushedSink : Subscription.ImportSink String String :=
  Subscription.feed (oldEntries opts s group) (document.map (arrivalOf opts)) (s.tables.profileLastId + 1)

def planOf :
    Subscription.ReconcilePlan :=
  let sink := flushedSink opts s group document
  Subscription.Reconcile (oldEntries opts s group) sink.entries sink.index

/-- The stale rows that are deleted. -/
def staleIds : List Int :=
  (planOf opts s group document).stale.filter fun id => !(working s group).contains id

/-- The stale rows that stay because they work. -/
def keptWorkingIds : List Int :=
  (planOf opts s group document).stale.filter fun id => (working s group).contains id

/-! ## After the transaction -/

/-- `UPSERT` of a row. An id above the counter was never handed out. -/
def Tables.putProfile (t : Tables) (p : Profile) : Tables :=
  if h : p.id ≤ t.profileLastId then
    { t with
      profiles :=
        if t.profiles.any fun q => q.id == p.id
        then t.profiles.map fun q => if q.id == p.id then p else q
        else t.profiles ++ [p]
      issued := by
        intro q hq
        split at hq
        · obtain ⟨r, hr, rfl⟩ := mem_map.1 hq
          split
          · exact h
          · exact t.issued r hr
        · rcases mem_append.1 hq with hq | hq
          · exact t.issued q hq
          · rw [mem_singleton.1 hq]
            exact h }
  else t

/-- `ProfilesRepo::Save` of a profile that was changed; its live object has changed already. -/
def saveProfile (p : Profile) : Store :=
  let s := { s with identityMap := s.identityMap.map fun q => if q.id == p.id then p else q }
  if p.id < 0 then s
  else if s.tombstones.contains p.id then s
  else { s with tables := Tables.putProfile s.tables p }

/-- The old row takes over the outbound of the new one. -/
def applyUpdate (update : Int × Int) : Store :=
  match s.getProfile update.1, s.getProfile update.2 with
  | some oldEnt, some newEnt => saveProfile s { oldEnt with content := newEnt.content }
  | _, _ => s

/-- `QList::insert` at a place that is inside the list or at its end. -/
def insertAt (l : List Int) (position : Nat) (id : Int) : List Int := l.insertIdx (min position l.length) id

/-- The arrivals with the auto selectors put back in their places. -/
def withSticky (order : List Int) (sticky : List (Int × Nat)) : List Int :=
  sticky.foldl (fun l place => insertAt l place.2 place.1) order

/-- The lambda `restore`: a kept row goes back where it was. -/
def restore (previousOrder l : List Int) (id : Int) : List Int :=
  if l.contains id then l
  else
    match previousOrder.idxOf? id with
    | none => l ++ [id]
    | some position => insertAt l position id

/-- `group->profiles` takes a new value and the group is saved. -/
def setListing (listing : List Int) : Store :=
  (s.touchGroup { group with profiles := listing }).saveGroup { group with profiles := listing }

/-- The diff: the updates, the new listing, the delete of the stale rows, and the kept rows put
back. -/
def reconcileGroup (faults : Faults) (group : Group) (document : List Profile) (s0 s : Store) : Store × Bool :=
  let plan := planOf opts s0 group document
  let keptWorking := keptWorkingIds opts s0 group document
  let s := plan.updates.foldl applyUpdate s
  let previousOrder := s.listing group.id
  let s := setListing s group (withSticky plan.order (sticky s0 group))
  match deleteProfiles faults 0 (staleIds opts s0 group document) s with
  | (s, none) => (s, false)
  | (s, some outcome) =>
    let back := outcome.kept.filter (fun id => id != outcome.retired) ++ keptWorking
    if outcome.kept.isEmpty && keptWorking.isEmpty then (s, outcome.ok)
    else (setListing s group (back.foldl (restore previousOrder) (s.listing group.id)), outcome.ok)

/-- The profiles `removeFlagged` looks at. -/
def flagCandidates (s0 : Store) (group : Group) (s : Store) : List Profile :=
  s.getProfileBatch ((s.listing group.id).filter fun id =>
    !((sticky s0 group).map Prod.fst).contains id)

/-- The ids the enabled options flag. -/
def flaggedIds (s0 : Store) (group : Group) (s : Store) : List Int :=
  ((flagCandidates s0 group s).filter (opts.flagged (flagCandidates s0 group s))).map (·.id)

/-- `removeFlagged`. -/
def removeFlagged (faults : Faults) (s0 : Store) (group : Group) (s : Store) : Store × Bool :=
  if (flaggedIds opts s0 group s).isEmpty then (s, true)
  else
    match deleteProfiles faults 0 (flaggedIds opts s0 group s) s with
    | (s, none) => (s, false)
    | (s, some outcome) => (s, outcome.ok)

/-- `Group::Resort`, a stable sort of a group that is kept sorted. -/
def resort (l : List Int) : List Int :=
  if opts.keepsSorted then l.mergeSort fun a b => !opts.less s b a else l

/-- How a refresh ends: before its diff, as an import into a cleared group, or with the diff done
and every delete gone through or not. -/
inductive RefreshEnd where
  | stopped (result : Result)
  | cleared
  | done (ok : Bool)
  deriving DecidableEq

/-- `GroupUpdater::applyRefresh` for a group that is not cleared. -/
def applyRefreshDiff (faults : RefreshFaults) (group : Group) (download : Download) (s : Store) : Store × RefreshEnd :=
  match applyRefresh faults.transaction group download s with
  | (s1, .applied) =>
    let s0 := s.saveGroup group
    if cleared s0 group then (s1, .cleared)
    else
      let (s2, staleOk) := reconcileGroup opts faults.stale group download.profiles s0 s1
      let (s3, flaggedOk) := removeFlagged opts faults.flagged s0 group s2
      (setListing s3 group (resort opts s3 (s3.listing group.id)), .done (staleOk && flaggedOk))
  | (s1, result) => (s1, .stopped result)

/-! ## The two sinks -/

open Lib.Matching in
/-- Claiming from the list is a request to its queues. -/
theorem claim_take (content : String) (unclaimed : List Profile) : (claim content unclaimed = none ∧
    take (queues (·.content) (·.id) unclaimed) (some content) = (none, queues (·.content) (·.id) unclaimed)) ∨
    ∃ rest id, claim content unclaimed = some rest ∧ take (queues (·.content) (·.id) unclaimed) (some content)
    = (some id, queues (·.content) (·.id) rest) := by
  induction unclaimed with
  | nil => exact .inl ⟨rfl, rfl⟩
  | cons p ps ih =>
    rw [claim, queues_cons]
    by_cases hp : p.content = content
    · subst hp
      refine .inr ⟨ps, p.id, by simp, ?_⟩
      rw [Lib.Matching.take, Function.update_self]
      simp only [Function.update_idem, Function.update_eq_self]
    · have hqueue : Function.update (queues (·.content) (·.id) ps) p.content (p.id :: queues (·.content) (·.id) ps p.content) content
            = queues (·.content) (·.id) ps content := Function.update_of_ne (Ne.symm hp) _ _
      rw [if_neg (by simpa using hp), Lib.Matching.take, hqueue]
      rcases ih with ⟨hnone, htake⟩ | ⟨rest, id, hsome, htake⟩
      · rw [Lib.Matching.take] at htake
        cases hq : queues (·.content) (·.id) ps content with
        | nil => exact .inl ⟨by rw [hnone]; rfl, rfl⟩
        | cons id tail =>
          rw [hq] at htake
          cases htake
      · rw [Lib.Matching.take] at htake
        cases hq : queues (·.content) (·.id) ps content with
        | nil =>
          rw [hq] at htake
          cases htake
        | cons id' tail =>
          rw [hq] at htake
          obtain ⟨hid, hrest⟩ := Prod.mk.inj htake
          refine .inr ⟨p :: rest, id', by rw [hsome]; rfl, ?_⟩
          rw [queues_cons, ← hrest, Function.update_of_ne hp]
          dsimp only
          rw [Function.update_comm hp]

open Lib.Matching in
/-- The chunk holds the profiles of the document whose request got nothing. -/
theorem foldl_add_chunk (unclaimed chunk : List Profile) : ∃ fresh : List Profile,
    (document.foldl ImportSink.add ⟨some unclaimed, chunk⟩).chunk = chunk ++ fresh ∧ (∀ p ∈ fresh, p ∈ document) ∧
    fresh.length = (serve (queues (·.content) (·.id) unclaimed) (document.map fun p => some p.content)).1.countP (·.isNone) := by
  induction document generalizing unclaimed chunk with
  | nil => exact ⟨[], by simp, by simp, rfl⟩
  | cons ent document ih =>
    rw [foldl_cons, ImportSink.add, map_cons, serve]
    dsimp only
    rcases claim_take ent.content unclaimed with ⟨hnone, htake⟩ | ⟨rest, id, hsome, htake⟩
    · obtain ⟨fresh, hchunk, hmem, hlen⟩ := ih unclaimed (chunk ++ [ent])
      rw [hnone, htake]
      refine ⟨ent :: fresh, ?_, ?_, ?_⟩
      · rw [hchunk, append_assoc]
        rfl
      · intro p hp
        rcases mem_cons.1 hp with rfl | hp
        · exact mem_cons_self
        · exact mem_cons_of_mem ent (hmem p hp)
      · rw [length_cons, hlen, countP_cons_of_pos rfl]
    · obtain ⟨fresh, hchunk, hmem, hlen⟩ := ih rest chunk
      rw [hsome, htake]
      refine ⟨fresh, hchunk, ?_, ?_⟩
      · intro p hp
        exact mem_cons_of_mem ent (hmem p hp)
      · rw [hlen, countP_cons_of_neg (by simp)]

theorem countP_entryOf (known : List String) (claims : List (Option Int))
    (arrivals : List (Subscription.Arrival String String)) (h : claims.length = arrivals.length) :
    (List.zipWith (Subscription.entryOf known) claims arrivals).countP (fun e => !e.reused) = claims.countP (·.isNone) := by
  induction claims generalizing arrivals with
  | nil => rfl
  | cons claim claims ih =>
    cases arrivals with
    | nil => cases h
    | cons ent arrivals =>
      have htail := ih arrivals (by simpa using h)
      rw [zipWith_cons_cons, countP_cons, countP_cons, htail]
      cases claim with
      | none | some id => rfl

/-- The ids `number` gives to the entries without a row. -/
theorem number_new_ids (first : Int) (es : List (Subscription.NewEntry String String)) (id : Int) :
    (∃ e ∈ Subscription.number first es, e.reused = false ∧ e.id = id) ↔ first ≤ id ∧ id < first + (es.countP fun e => !e.reused : Nat) := by
  induction es generalizing first with
  | nil => simp [Subscription.number]
  | cons a es ih =>
    rw [Subscription.number]
    cases hr : a.reused with
    | true =>
      rw [if_pos rfl, countP_cons_of_neg (by simp [hr]), ← ih first]
      simp [hr]
    | false =>
      have htail := ih (first + 1)
      rw [if_neg (by simp), countP_cons_of_pos (by simp [hr])]
      constructor
      · rintro ⟨e, he, hre, rfl⟩
        rcases mem_cons.1 he with rfl | he
        · have hid : (Subscription.NewEntry.withId first a).id = first := rfl
          omega
        · have := htail.1 ⟨e, he, hre, rfl⟩
          omega
      · intro hid
        by_cases hfirst : id = first
        · exact ⟨a.withId first, mem_cons_self, hr, hfirst.symm⟩
        · obtain ⟨e, he, hre, heq⟩ := htail.2 (by omega)
          exact ⟨e, mem_cons_of_mem _ he, hre, heq⟩

/-- The ids of numbered profiles. -/
theorem mem_numbered_ids (first gid : Int) (ps : List Profile) (id : Int) :
    (∃ p ∈ numbered first gid ps, p.id = id) ↔ first ≤ id ∧ id < first + ps.length := by
  induction ps generalizing first with
  | nil => simp [numbered]
  | cons a ps ih =>
    have htail := ih (first + 1)
    rw [numbered, length_cons]
    constructor
    · rintro ⟨p, hp, rfl⟩
      rcases mem_cons.1 hp with rfl | hp
      · dsimp only
        omega
      · have := htail.1 ⟨p, hp, rfl⟩
        omega
    · intro hid
      by_cases hfirst : id = first
      · exact ⟨_, mem_cons_self, hfirst.symm⟩
      · obtain ⟨p, hp, heq⟩ := htail.2 (by omega)
        exact ⟨p, mem_cons_of_mem _ hp, heq⟩

/-- The chunk of the refresh and the entries without a row, for a group that is not cleared. -/
theorem chunk_length {s : Store} {group : Group} (document : List Profile)
    (hcleared : cleared s group = false) (hold : ((oldEntries opts s group).map (·.id)).Nodup) :
    (∀ p ∈ (parsedSink s group document).chunk, p ∈ document) ∧
    ∀ id, (∃ e ∈ (flushedSink opts s group document).entries, e.reused = false ∧ e.id = id) ↔
    s.tables.profileLastId + 1 ≤ id ∧ id < s.tables.profileLastId + 1 + (parsedSink s group document).chunk.length := by
  obtain ⟨fresh, hchunk, hmem, hlen⟩ :=
    foldl_add_chunk document (s.getProfileBatch (survivors s group)) []
  have hparsed : (parsedSink s group document).chunk = fresh := by
    have hindex : (if s.subClear && (survivors s group).isEmpty then none
        else some (s.getProfileBatch (survivors s group))) = some (s.getProfileBatch (survivors s group)) := by
      rw [← cleared, hcleared]
      rfl
    have hsink : parsedSink s group document = document.foldl ImportSink.add ⟨some (s.getProfileBatch (survivors s group)), []⟩ := by
      rw [← hindex]
      rfl
    rw [hsink, hchunk, nil_append]
  have hqueues : Lib.Matching.queues (fun e : Subscription.OldEntry String String => e.keys.content)
      Subscription.OldEntry.id (oldEntries opts s group) = Lib.Matching.queues (·.content) (·.id) (s.getProfileBatch (survivors s group)) := by
    funext k
    rw [Lib.Matching.queues, Lib.Matching.queues, oldEntries, filter_map, map_map]
    rfl
  have hcontents : Subscription.contents (document.map (arrivalOf opts)) = document.map fun p => some p.content := by
    rw [Subscription.contents, map_map]
    rfl
  have hserved := Lib.Matching.serve_spec (Subscription.contents (document.map (arrivalOf opts))) _
    (Lib.Matching.distinct_queues (fun e : Subscription.OldEntry String String => e.keys.content) hold)
  rw [hparsed]
  refine ⟨hmem, ?_⟩
  intro id
  rw [flushedSink, (Subscription.feed_spec _ _ _).1, number_new_ids, countP_entryOf, hlen, hqueues, hcontents]
  rw [hserved.length, Subscription.contents, length_map]

end Throne.Configs.Sub
