import Throne.Lib.Lists
import Throne.Lib.Matching

/-!
# The diff of a subscription refresh

`src/src/configs/sub/SubscriptionReconcile.cpp` and the feeding side, `ImportSink::add` and `flush`
of `GroupUpdater.cpp`. An arrival claims an old profile of the same content, in group order; the
others get rows of their own. What is left is paired by identity: an old profile whose content never
arrived with an arrival whose content was never known. A paired old row takes over the content of the
new one, whose row becomes stale.

Digests are of any types with decidable equality: `κ` for contents, `ι` for identities. Both passes
are the matching of `Throne.Lib.Matching`.
-/

namespace Throne.Subscription

open Lib.Matching Lib.Lists List

variable {κ ι : Type}

/-! ## Entries and the content index -/

structure ProfileKeys (κ ι : Type) where
  content : κ
  identity : ι

structure OldEntry (κ ι : Type) where
  id : Int
  keys : ProfileKeys κ ι
  display : String

/-- A parsed profile as far as the diff looks at it. -/
structure Arrival (κ ι : Type) where
  keys : ProfileKeys κ ι
  display : String

/-- A negative id stands for an arrival without a row. The identity is computed only for a content
that no old profile has. -/
structure NewEntry (κ ι : Type) where
  id : Int
  reused : Bool
  contentKnown : Bool
  content : κ
  identity : Option ι
  display : String

structure ContentIndex (κ : Type) where
  unclaimed : κ → List Int
  known : List κ
  arrivals : List κ
  claimedIds : List Int

/-- The constructor appends each old id to the queue of its content. -/
def ContentIndex.ofOld [DecidableEq κ] (old : List (OldEntry κ ι)) : ContentIndex κ where
  unclaimed := queues (fun e : OldEntry κ ι => e.keys.content) OldEntry.id old
  known := old.map fun e => e.keys.content
  arrivals := []
  claimedIds := []

def ContentIndex.knows [DecidableEq κ] (index : ContentIndex κ) (content : κ) : Bool := index.known.contains content

def ContentIndex.noteArrival (index : ContentIndex κ) (content : κ) : ContentIndex κ :=
  { index with arrivals := content :: index.arrivals }

def ContentIndex.arrived [DecidableEq κ] (index : ContentIndex κ) (content : κ) : Bool := index.arrivals.contains content

def ContentIndex.isClaimed (index : ContentIndex κ) (id : Int) : Bool := index.claimedIds.contains id

def ContentIndex.claim [DecidableEq κ] (index : ContentIndex κ) (content : κ) : Option Int × ContentIndex κ :=
  match index.unclaimed content with
  | [] => (none, index)
  | id :: rest =>
    (some id, { index with
      unclaimed := Function.update index.unclaimed content rest
      claimedIds := index.claimedIds ++ [id] })

/-! ## The sink -/

/-- `chunk` holds the arrivals that need a row, `entryIndex` the places of their entries. -/
structure ImportSink (κ ι : Type) where
  index : ContentIndex κ
  entries : List (NewEntry κ ι)
  entryIndex : List Nat
  chunk : List (Arrival κ ι)

def ImportSink.start [DecidableEq κ] (old : List (OldEntry κ ι)) : ImportSink κ ι := ⟨.ofOld old, [], [], []⟩

def ImportSink.add [DecidableEq κ] (sink : ImportSink κ ι) (ent : Arrival κ ι) : ImportSink κ ι :=
  let content := ent.keys.content
  let index := sink.index.noteArrival content
  let contentKnown := index.knows content
  match index.claim content with
  | (some oldId, index) =>
    { sink with
      index := index
      entries := sink.entries ++ [⟨oldId, true, contentKnown, content, none, ent.display⟩] }
  | (none, index) =>
    { index := index
      entryIndex := sink.entryIndex ++ [sink.entries.length]
      entries := sink.entries ++ [⟨-1, false, contentKnown, content, if contentKnown then none else some ent.keys.identity, ent.display⟩]
      chunk := sink.chunk ++ [ent] }

def NewEntry.withId (id : Int) (e : NewEntry κ ι) : NewEntry κ ι := { e with id := id }

/-- A flush that goes through: `AddProfileBatch` has given the chunk the ids from `first` on. -/
def ImportSink.flush (sink : ImportSink κ ι) (first : Int) : ImportSink κ ι :=
  { sink with
    entries := sink.entryIndex.zipIdx.foldl
      (fun entries place => entries.modify place.1 (NewEntry.withId (first + place.2))) sink.entries
    entryIndex := []
    chunk := [] }

/-- The sink after a document went through it and was stored. -/
def feed [DecidableEq κ] (old : List (OldEntry κ ι)) (arrivals : List (Arrival κ ι)) (first : Int) : ImportSink κ ι :=
  (arrivals.foldl ImportSink.add (.start old)).flush first

/-! ## The reconcile -/

structure ReconcilePlan where
  order : List Int
  updates : List (Int × Int)
  stale : List Int
  added : List String
  updated : List String
  deleted : List String
  deriving DecidableEq

/-- The state of the pairing loop; `supersededBy` has the latest entry first. -/
structure Pairing (ι : Type) where
  leftoverByIdentity : ι → List Int
  updates : List (Int × Int)
  updated : List String
  supersededBy : List (Int × Int)
  matchedOld : List Int

/-- The identity under which an arrival looks for an old row. -/
def NewEntry.request (e : NewEntry κ ι) : Option ι :=
  if e.id < 0 ∨ e.reused ∨ e.contentKnown then none else e.identity

def pair [DecidableEq ι] (st : Pairing ι) (e : NewEntry κ ι) : Pairing ι :=
  match e.request with
  | none => st
  | some identity =>
    match st.leftoverByIdentity identity with
    | [] => st
    | oldId :: rest =>
      { leftoverByIdentity := Function.update st.leftoverByIdentity identity rest
        updates := st.updates ++ [(oldId, e.id)]
        updated := st.updated ++ [e.display]
        supersededBy := (e.id, oldId) :: st.supersededBy
        matchedOld := st.matchedOld ++ [oldId] }

/-- The old rows whose content neither was claimed nor arrived. -/
def leftovers [DecidableEq κ] (old : List (OldEntry κ ι)) (index : ContentIndex κ) : List (OldEntry κ ι) :=
  old.filter fun e => !(index.isClaimed e.id || index.arrived e.keys.content)

def pairing [DecidableEq κ] [DecidableEq ι] (old : List (OldEntry κ ι)) (incoming : List (NewEntry κ ι)) (index : ContentIndex κ) : Pairing ι :=
  incoming.foldl pair ⟨queues (fun e : OldEntry κ ι => e.keys.identity) OldEntry.id (leftovers old index), [], [], [], []⟩

def superseded (st : Pairing ι) (id : Int) : Option Int :=
  (st.supersededBy.find? fun p => p.1 = id).map Prod.snd

/-- One turn of the last loop. -/
def place (st : Pairing ι) (plan : ReconcilePlan) (e : NewEntry κ ι) : ReconcilePlan :=
  if e.id < 0 then plan
  else if e.reused then { plan with order := plan.order ++ [e.id] }
  else
    match superseded st e.id with
    | some oldId =>
      { plan with order := plan.order ++ [oldId], stale := plan.stale ++ [e.id] }
    | none => { plan with order := plan.order ++ [e.id], added := plan.added ++ [e.display] }

/-- The old rows that are neither claimed nor paired. -/
def staleOld (old : List (OldEntry κ ι)) (index : ContentIndex κ) (st : Pairing ι) : List (OldEntry κ ι) :=
  old.filter fun e => !(index.isClaimed e.id || st.matchedOld.contains e.id)

def Reconcile [DecidableEq κ] [DecidableEq ι] (old : List (OldEntry κ ι)) (incoming : List (NewEntry κ ι)) (index : ContentIndex κ) : ReconcilePlan :=
  let st := pairing old incoming index
  incoming.foldl (place st) ⟨[], st.updates, (staleOld old index st).map OldEntry.id, [], st.updated, (staleOld old index st).map OldEntry.display⟩

/-! ## Numbering the entries -/

/-- The entries that need a row get consecutive ids. -/
def number : Int → List (NewEntry κ ι) → List (NewEntry κ ι)
  | _, [] => []
  | first, e :: es =>
    if e.reused then e :: number first es else e.withId first :: number (first + 1) es

theorem number_append (first : Int) (es fs : List (NewEntry κ ι)) : number first (es ++ fs)
    = number first es ++ number (first + (es.countP fun e => !e.reused : Nat)) fs := by
  induction es generalizing first with
  | nil => simp [number]
  | cons e es ih =>
    rw [cons_append, number, number]
    cases hr : e.reused with
    | true =>
      rw [if_pos rfl, if_pos rfl, ih, countP_cons_of_neg (by simp [hr]), cons_append]
    | false =>
      have hnext : first + 1 + ((es.countP fun e => !e.reused : Nat) : Int) = first + ((es.countP fun e => !e.reused) + 1 : Nat) := by omega
      rw [if_neg (by simp), if_neg (by simp), ih, countP_cons_of_pos (by simp [hr]), cons_append, hnext]

theorem length_number (first : Int) (es : List (NewEntry κ ι)) : (number first es).length = es.length := by
  induction es generalizing first with
  | nil => rfl
  | cons e es ih =>
    rw [number]
    split <;> rw [length_cons, ih, length_cons]

/-- The ids of the numbered entries: those of the reused ones, and `first` on for the others. -/
theorem mem_number {first : Int} {es : List (NewEntry κ ι)} {e : NewEntry κ ι} (h : e ∈ number first es) :
    ∃ e₀ ∈ es, e = e₀.withId e.id ∧ (e₀.reused = true → e = e₀) ∧ (e₀.reused = false → first ≤ e.id) := by
  induction es generalizing first with
  | nil => cases h
  | cons a es ih =>
    rw [number] at h
    split at h
    · rename_i hr
      rcases mem_cons.1 h with rfl | htail
      · exact ⟨e, mem_cons_self, rfl, fun _ => rfl, fun hn => by rw [hr] at hn; cases hn⟩
      · obtain ⟨e₀, he₀, hrest⟩ := ih htail
        exact ⟨e₀, mem_cons_of_mem a he₀, hrest⟩
    · rename_i hr
      rcases mem_cons.1 h with rfl | htail
      · exact ⟨a, mem_cons_self, rfl, fun hn => absurd hn hr, fun _ => Int.le_refl _⟩
      · obtain ⟨e₀, he₀, hid, hsame, hle⟩ := ih htail
        exact ⟨e₀, mem_cons_of_mem a he₀, hid, hsame, fun hn => by have := hle hn; omega⟩

/-- `entryIndex` points at the entries without a row, in their order. -/
structure Indexed (sink : ImportSink κ ι) : Prop where
  inside : ∀ p ∈ sink.entryIndex, p < sink.entries.length
  count : sink.entryIndex.length = sink.entries.countP fun e => !e.reused
  numbers : ∀ first : Int, sink.entryIndex.zipIdx.foldl
    (fun entries place => entries.modify place.1 (NewEntry.withId (first + place.2))) sink.entries = number first sink.entries

/-- Places inside the entries do not see an entry after them. -/
theorem foldl_modify_append {α : Type} (f : Nat → α → α) (places : List (Nat × Nat))
    (l : List α) (e : α) (h : ∀ p ∈ places, p.1 < l.length) : places.foldl (fun l p => l.modify p.1 (f p.2)) (l ++ [e])
    = places.foldl (fun l p => l.modify p.1 (f p.2)) l ++ [e] := by
  induction places generalizing l with
  | nil => rfl
  | cons p places ih =>
    rw [foldl_cons, foldl_cons, modify_append_left (h p mem_cons_self), ih]
    intro q hq
    rw [length_modify]
    exact h q (mem_cons_of_mem p hq)

theorem Indexed.reused {sink : ImportSink κ ι} (h : Indexed sink) (e : NewEntry κ ι) (he : e.reused = true) (index : ContentIndex κ) :
    Indexed { sink with index := index, entries := sink.entries ++ [e] } where
  inside p hp := by
    have := h.inside p hp
    dsimp only
    rw [length_append]
    omega
  count := by
    dsimp only
    rw [countP_append, h.count]
    simp [he]
  numbers first := by
    dsimp only
    rw [foldl_modify_append (fun i e => NewEntry.withId (first + i) e), h.numbers, number_append, number, if_pos he, number]
    intro p hp
    exact h.inside p.1 (fst_mem_of_mem_zipIdx hp)

theorem Indexed.stored {sink : ImportSink κ ι} (h : Indexed sink) (e : NewEntry κ ι)
    (he : e.reused = false) (index : ContentIndex κ) (chunk : List (Arrival κ ι)) :
    Indexed ⟨index, sink.entries ++ [e], sink.entryIndex ++ [sink.entries.length], chunk⟩ where
  inside p hp := by
    dsimp only at hp ⊢
    rw [length_append, length_singleton]
    rcases mem_append.1 hp with hold | hnew
    · have := h.inside p hold
      omega
    · rw [mem_singleton] at hnew
      omega
  count := by
    dsimp only
    rw [countP_append, length_append, h.count]
    simp [he]
  numbers first := by
    dsimp only
    rw [zipIdx_append, foldl_append, foldl_modify_append (fun i e => NewEntry.withId (first + i) e), h.numbers, number_append]
    · -- The last place is the new entry, and its number the count of those before it.
      have hlast : sink.entries.length = (number first sink.entries).length := (length_number first _).symm
      rw [h.count, number, if_neg (by simp [he]), number]
      simp only [Nat.zero_add, zipIdx_cons, zipIdx_nil, foldl_cons, foldl_nil]
      rw [hlast, modify_concat]
    · intro p hp
      exact h.inside p.1 (fst_mem_of_mem_zipIdx hp)

/-! ## The sink as a matching -/

section Sink

variable [DecidableEq κ]

/-- The entry of an arrival that claimed `claimed`, before it has a row. -/
def entryOf (known : List κ) (claimed : Option Int) (ent : Arrival κ ι) : NewEntry κ ι :=
  match claimed with
  | some oldId =>
    ⟨oldId, true, known.contains ent.keys.content, ent.keys.content, none, ent.display⟩
  | none =>
    ⟨-1, false, known.contains ent.keys.content, ent.keys.content,
      if known.contains ent.keys.content then none else some ent.keys.identity, ent.display⟩

/-- The contents the arrivals ask for. -/
def contents (arrivals : List (Arrival κ ι)) : List (Option κ) :=
  arrivals.map fun ent => some ent.keys.content

theorem claim_eq (index : ContentIndex κ) (content : κ) : index.claim content = ((take index.unclaimed (some content)).1,
        { index with
          unclaimed := (take index.unclaimed (some content)).2
          claimedIds := index.claimedIds ++ (take index.unclaimed (some content)).1.toList }) := by
  rw [ContentIndex.claim, Lib.Matching.take]
  cases index.unclaimed content with
  | nil => simp
  | cons id rest => rfl

theorem add_spec (sink : ImportSink κ ι) (ent : Arrival κ ι) : (sink.add ent).entries = sink.entries ++
    [entryOf sink.index.known (take sink.index.unclaimed (some ent.keys.content)).1 ent] ∧
    (sink.add ent).index.unclaimed = (take sink.index.unclaimed (some ent.keys.content)).2 ∧ (sink.add ent).index.known = sink.index.known ∧
    (sink.add ent).index.arrivals = ent.keys.content :: sink.index.arrivals ∧ (sink.add ent).index.claimedIds = sink.index.claimedIds ++
    (take sink.index.unclaimed (some ent.keys.content)).1.toList := by
  rw [ImportSink.add, claim_eq]
  cases hclaim : (take sink.index.unclaimed (some ent.keys.content)).1 with
  | none =>
    have hnone : (take (sink.index.noteArrival ent.keys.content).unclaimed (some ent.keys.content)).1 = none := hclaim
    rw [hnone]
    exact ⟨rfl, rfl, rfl, rfl, rfl⟩
  | some oldId =>
    have hsome : (take (sink.index.noteArrival ent.keys.content).unclaimed (some ent.keys.content)).1 = some oldId := hclaim
    rw [hsome]
    exact ⟨rfl, rfl, rfl, rfl, rfl⟩

theorem indexed_add {sink : ImportSink κ ι} (h : Indexed sink) (ent : Arrival κ ι) : Indexed (sink.add ent) := by
  rw [ImportSink.add]
  split
  · exact h.reused _ rfl _
  · exact h.stored _ rfl _ _

/-- The sink after the arrivals, as the result of the matching by content. -/
theorem foldl_add_spec (arrivals : List (Arrival κ ι)) (sink : ImportSink κ ι) (h : Indexed sink) :
    Indexed (arrivals.foldl ImportSink.add sink) ∧ (arrivals.foldl ImportSink.add sink).entries = sink.entries ++
    List.zipWith (entryOf sink.index.known) (serve sink.index.unclaimed (contents arrivals)).1 arrivals ∧
    (arrivals.foldl ImportSink.add sink).index.claimedIds = sink.index.claimedIds ++ served sink.index.unclaimed (contents arrivals) ∧
    (arrivals.foldl ImportSink.add sink).index.known = sink.index.known ∧
    (∀ content, content ∈ (arrivals.foldl ImportSink.add sink).index.arrivals ↔
    content ∈ sink.index.arrivals ∨ content ∈ arrivals.map fun ent => ent.keys.content) := by
  induction arrivals generalizing sink with
  | nil =>
    refine ⟨h, ?_, ?_, rfl, ?_⟩
    · simp [contents, serve]
    · simp [contents, serve, served]
    · intro content
      simp
  | cons ent arrivals ih =>
    obtain ⟨hentries, hunclaimed, hknown, harrivals, hclaimed⟩ := add_spec sink ent
    obtain ⟨hindexed, hentries', hclaimed', hknown', harrivals'⟩ := ih _ (indexed_add h ent)
    have hcontents : contents (ent :: arrivals) = some ent.keys.content :: contents arrivals := rfl
    rw [foldl_cons]
    refine ⟨hindexed, ?_, ?_, hknown'.trans hknown, ?_⟩
    · rw [hentries', hentries, hknown, hunclaimed, hcontents, serve, zipWith_cons_cons, append_assoc]
      rfl
    · rw [hclaimed', hclaimed, hunclaimed, hcontents, served, served, serve, append_assoc]
      cases (take sink.index.unclaimed (some ent.keys.content)).1 with
      | none | some id => rfl
    · intro content
      rw [harrivals', harrivals, mem_cons, map_cons, mem_cons]
      tauto

end Sink

end Throne.Subscription
