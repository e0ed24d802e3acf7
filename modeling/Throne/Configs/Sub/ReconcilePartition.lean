import Throne.Configs.Sub.SubscriptionReconcile

/-!
# The reconcile is an exact partition

The ids a fed sink hands to the reconcile are distinct: reused entries carry the claimed old ids, the
others the new ids of the flush (`Fed`). The pairing by identity is a matching of the leftovers with
the arrivals of unknown content, so its pairs are one to one (`pairing_spec`). From this every old id
is claimed, updated once or stale once, every new id is listed once or superseded once, and the
resulting order follows the arrivals (`reconcile_partition`).
-/

namespace Throne.Subscription

open Lib.Matching Lib.Lists List

variable {κ ι : Type}

/-! ## What the sink hands over -/

/-- The books of a sink that was fed and flushed. -/
structure Fed (old : List (OldEntry κ ι)) (incoming : List (NewEntry κ ι))
    (index : ContentIndex κ) : Prop where
  old_nodup : (old.map OldEntry.id).Nodup
  nodup : (incoming.map NewEntry.id).Nodup
  reused : ∀ e ∈ incoming, e.reused = true → e.id ∈ old.map OldEntry.id ∧ index.isClaimed e.id = true
  claimed : ∀ id, index.isClaimed id = true → id ∈ old.map OldEntry.id ∧ ∃ e ∈ incoming, e.reused = true ∧ e.id = id
  fresh : ∀ e ∈ incoming, e.reused = false → e.id ∉ old.map OldEntry.id

/-- The ids of numbered entries are distinct when the reused ones are distinct and below the
numbers. -/
theorem number_nodup (es : List (NewEntry κ ι)) (first : Int) (hnodup : ((es.filter fun e => e.reused).map NewEntry.id).Nodup)
    (hbelow : ∀ e ∈ es, e.reused = true → e.id < first) : ((number first es).map NewEntry.id).Nodup := by
  induction es generalizing first with
  | nil => exact nodup_nil
  | cons a es ih =>
    have hbelow' : ∀ e ∈ es, e.reused = true → e.id < first :=
      fun e he => hbelow e (mem_cons_of_mem a he)
    rw [number]
    cases hr : a.reused with
    | true =>
      rw [filter_cons_of_pos hr, map_cons, nodup_cons] at hnodup
      rw [if_pos rfl, map_cons, nodup_cons]
      refine ⟨?_, ih first hnodup.2 hbelow'⟩
      intro hmem
      obtain ⟨e, he, heq⟩ := mem_map.1 hmem
      obtain ⟨e₀, he₀, _, hsame, hle⟩ := mem_number he
      cases hr₀ : e₀.reused with
      | true =>
        rw [hsame hr₀] at heq
        exact hnodup.1 (mem_map.2 ⟨e₀, mem_filter.2 ⟨he₀, hr₀⟩, heq⟩)
      | false =>
        have h₁ := hle hr₀
        have h₂ := hbelow a mem_cons_self hr
        omega
    | false =>
      rw [filter_cons_of_neg (by simp [hr])] at hnodup
      rw [if_neg (by simp), map_cons, nodup_cons]
      refine ⟨?_, ih (first + 1) hnodup fun e he hre => ?_⟩
      · intro hmem
        obtain ⟨e, he, heq⟩ := mem_map.1 hmem
        obtain ⟨e₀, he₀, _, hsame, hle⟩ := mem_number he
        have heq' : e.id = first := heq
        cases hr₀ : e₀.reused with
        | true =>
          have := hbelow' e₀ he₀ hr₀
          rw [hsame hr₀] at heq'
          omega
        | false =>
          have := hle hr₀
          omega
      · have := hbelow' e he hre
        omega

theorem number_reused (first : Int) (es : List (NewEntry κ ι)) : (number first es).filter (fun e => e.reused) = es.filter fun e => e.reused := by
  induction es generalizing first with
  | nil => rfl
  | cons a es ih =>
    rw [number]
    cases hr : a.reused with
    | true => rw [if_pos rfl, filter_cons_of_pos hr, filter_cons_of_pos hr, ih]
    | false =>
      rw [if_neg (by simp), filter_cons_of_neg (by simpa [NewEntry.withId] using hr), filter_cons_of_neg (by simp [hr]), ih]

section Feed

variable [DecidableEq κ]

/-- The reused entries carry the claimed ids. -/
theorem zipWith_entryOf_reused (known : List κ) (claims : List (Option Int)) (arrivals : List (Arrival κ ι)) (h : claims.length = arrivals.length) :
    ((List.zipWith (entryOf known) claims arrivals).filter fun e => e.reused).map NewEntry.id = claims.filterMap id := by
  induction claims generalizing arrivals with
  | nil => rfl
  | cons claim claims ih =>
    cases arrivals with
    | nil => cases h
    | cons ent arrivals =>
      have htail := ih arrivals (by simpa using h)
      rw [zipWith_cons_cons]
      cases claim with
      | none =>
        rw [filter_cons_of_neg (by simp [entryOf]), htail]
        rfl
      | some id =>
        rw [filter_cons_of_pos rfl, map_cons, htail]
        rfl

/-- The sink after `feed`: its entries are the numbered entries of the matching by content. -/
theorem feed_spec (old : List (OldEntry κ ι)) (arrivals : List (Arrival κ ι)) (first : Int) :
    (feed old arrivals first).entries = number first (List.zipWith (entryOf (old.map fun e => e.keys.content))
    (serve (queues (fun e : OldEntry κ ι => e.keys.content) OldEntry.id old) (contents arrivals)).1 arrivals) ∧
    (feed old arrivals first).index.claimedIds = served (queues (fun e : OldEntry κ ι => e.keys.content) OldEntry.id old) (contents arrivals) ∧
    (∀ content, (feed old arrivals first).index.arrived content = true ↔ content ∈ arrivals.map fun ent => ent.keys.content) := by
  have hstart : Indexed (ImportSink.start old : ImportSink κ ι) := by
    refine ⟨?_, rfl, fun _ => rfl⟩
    intro p hp
    cases hp
  obtain ⟨hindexed, hentries, hclaimed, _, harrived⟩ := foldl_add_spec arrivals _ hstart
  refine ⟨?_, ?_, ?_⟩
  · rw [feed, ImportSink.flush]
    dsimp only
    rw [hindexed.numbers first, hentries]
    rfl
  · rw [feed, ImportSink.flush]
    dsimp only
    rw [hclaimed]
    rfl
  · intro content
    rw [feed, ImportSink.flush, ContentIndex.arrived, contains_iff_mem, harrived content]
    constructor
    · rintro (hnone | hsome)
      · cases hnone
      · exact hsome
    · exact Or.inr

theorem fed_feed {old : List (OldEntry κ ι)} (arrivals : List (Arrival κ ι)) {first : Int}
    (hold : (old.map OldEntry.id).Nodup) (hfirst : ∀ e ∈ old, e.id < first) :
    Fed old (feed old arrivals first).entries (feed old arrivals first).index := by
  obtain ⟨hentries, hclaimed, _⟩ := feed_spec old arrivals first
  have hserved := serve_spec (contents arrivals) _ (distinct_queues (fun e : OldEntry κ ι => e.keys.content) hold)
  have hlen : (serve (queues (fun e : OldEntry κ ι => e.keys.content) OldEntry.id old) (contents arrivals)).1.length = arrivals.length := by
    rw [hserved.length, contents, length_map]
  -- The reused entries, with the claimed ids.
  have hreused := zipWith_entryOf_reused (old.map fun e => e.keys.content) _ arrivals hlen
  have hids : ∀ id, id ∈ served (queues (fun e : OldEntry κ ι => e.keys.content) OldEntry.id old) (contents arrivals) → id ∈ old.map OldEntry.id := by
    intro id hid
    obtain ⟨oid, hoid, hsome⟩ := mem_filterMap.1 hid
    obtain ⟨i, hi⟩ := getElem?_of_mem hoid
    rw [id_eq] at hsome
    subst hsome
    obtain ⟨k, _, hk⟩ := hserved.named i id hi
    obtain ⟨e, he, _, rfl⟩ := mem_queues.1 hk
    exact mem_map_of_mem he
  generalize hes : List.zipWith (entryOf (old.map fun e => e.keys.content))
    (serve (queues (fun e : OldEntry κ ι => e.keys.content) OldEntry.id old) (contents arrivals)).1 arrivals = es at *
  have hbelow : ∀ e ∈ es, e.reused = true → e.id < first := by
    intro e he hr
    have hmem : e.id ∈ (es.filter fun e => e.reused).map NewEntry.id :=
      mem_map_of_mem (mem_filter.2 ⟨he, hr⟩)
    rw [hreused] at hmem
    obtain ⟨o, ho, hoid⟩ := mem_map.1 (hids e.id hmem)
    rw [← hoid]
    exact hfirst o ho
  have hfilter : ((feed old arrivals first).entries.filter fun e => e.reused).map NewEntry.id = (feed old arrivals first).index.claimedIds := by
    rw [hentries, number_reused, hreused, hclaimed]
    rfl
  have hclaim : ∀ id, (feed old arrivals first).index.isClaimed id = true ↔ ∃ e ∈ (feed old arrivals first).entries, e.reused = true ∧ e.id = id := by
    intro id
    rw [ContentIndex.isClaimed, contains_iff_mem, ← hfilter, mem_map]
    constructor
    · rintro ⟨e, he, rfl⟩
      obtain ⟨hin, hr⟩ := mem_filter.1 he
      exact ⟨e, hin, hr, rfl⟩
    · rintro ⟨e, hin, hr, rfl⟩
      exact ⟨e, mem_filter.2 ⟨hin, hr⟩, rfl⟩
  have holdId : ∀ id, (feed old arrivals first).index.isClaimed id = true → id ∈ old.map OldEntry.id := by
    intro id hid
    rw [ContentIndex.isClaimed, contains_iff_mem, hclaimed] at hid
    exact hids id hid
  refine ⟨hold, ?_, ?_, fun id hid => ⟨holdId id hid, (hclaim id).1 hid⟩, ?_⟩
  · rw [hentries]
    apply number_nodup es first _ hbelow
    rw [hreused]
    exact hserved.nodup
  · intro e he hr
    have hcl := (hclaim e.id).2 ⟨e, he, hr, rfl⟩
    exact ⟨holdId e.id hcl, hcl⟩
  · intro e he hr hmem
    rw [hentries] at he
    obtain ⟨e₀, he₀, hid, hsame, hle⟩ := mem_number he
    have hr₀ : e₀.reused = false := by
      rw [hid] at hr
      exact hr
    have h₁ := hle hr₀
    obtain ⟨o, ho, hoid⟩ := mem_map.1 hmem
    have h₂ := hfirst o ho
    omega

/-- An entry against the arrival it stands for: a reused one carries an old row of the same content,
the others a number of the flush. -/
structure Follows (old : List (OldEntry κ ι)) (first : Int) (ent : Arrival κ ι)
    (e : NewEntry κ ι) : Prop where
  content : e.content = ent.keys.content
  display : e.display = ent.display
  reused : e.reused = true → ∃ o ∈ old, o.id = e.id ∧ o.keys.content = ent.keys.content
  stored : e.reused = false → first ≤ e.id

theorem number_follows (old : List (OldEntry κ ι)) (known : List κ) (claims : List (Option Int))
    (arrivals : List (Arrival κ ι)) (first : Int) (hlen : claims.length = arrivals.length)
    (hclaims : ∀ (i : Nat) id ent, claims[i]? = some (some id) → arrivals[i]? = some ent →
    ∃ o ∈ old, o.id = id ∧ o.keys.content = ent.keys.content) : List.Forall₂ (Follows old first) arrivals
    (number first (List.zipWith (entryOf known) claims arrivals)) := by
  induction claims generalizing arrivals first with
  | nil =>
    cases arrivals with
    | nil => exact List.Forall₂.nil
    | cons ent arrivals => cases hlen
  | cons claim claims ih =>
    cases arrivals with
    | nil => cases hlen
    | cons ent arrivals =>
      have htail : ∀ next, List.Forall₂ (Follows old next) arrivals (number next (List.zipWith (entryOf known) claims arrivals)) := by
        intro next
        apply ih arrivals next (by simpa using hlen)
        intro i id ent' hi hent
        exact hclaims (i + 1) id ent' hi hent
      rw [zipWith_cons_cons, number]
      cases claim with
      | some id =>
        rw [if_pos (by simp [entryOf])]
        refine List.Forall₂.cons ⟨rfl, rfl, ?_, ?_⟩ (htail first)
        · intro _
          exact hclaims 0 id ent rfl rfl
        · intro hr
          cases hr
      | none =>
        rw [if_neg (by simp [entryOf])]
        refine List.Forall₂.cons ⟨rfl, rfl, ?_, ?_⟩ ?_
        · intro hr
          cases hr
        · intro _
          exact Int.le_refl first
        · apply (htail (first + 1)).imp
          intro ent' e h
          refine ⟨h.content, h.display, h.reused, ?_⟩
          intro hr
          have := h.stored hr
          omega

theorem feed_follows {old : List (OldEntry κ ι)} (arrivals : List (Arrival κ ι)) (first : Int) (hold : (old.map OldEntry.id).Nodup) :
    List.Forall₂ (Follows old first) arrivals (feed old arrivals first).entries := by
  have hserved := serve_spec (contents arrivals) _ (distinct_queues (fun e : OldEntry κ ι => e.keys.content) hold)
  rw [(feed_spec old arrivals first).1]
  apply number_follows
  · rw [hserved.length, contents, length_map]
  · intro i id ent hi hent
    obtain ⟨k, hk, hid⟩ := hserved.named i id hi
    rw [contents, getElem?_map, hent] at hk
    obtain ⟨o, ho, hkey, hoid⟩ := mem_queues.1 hid
    exact ⟨o, ho, hoid, hkey.trans (Option.some.inj (Option.some.inj hk)).symm⟩

end Feed

/-! ## The pairing as a matching -/

/-- The taken old ids, each with the id of the entry that took it. -/
def paired (taken : List (Option Int)) (es : List (NewEntry κ ι)) : List (Int × Int) :=
  (List.zipWith (fun t e => t.map fun oldId => (oldId, e.id)) taken es).filterMap id

theorem mem_paired {taken : List (Option Int)} {es : List (NewEntry κ ι)} {p : Int × Int} (h : p ∈ paired taken es) :
    ∃ (i : Nat) (e : NewEntry κ ι), taken[i]? = some (some p.1) ∧ es[i]? = some e ∧ e.id = p.2 := by
  obtain ⟨op, hop, hp⟩ := mem_filterMap.1 h
  obtain ⟨i, hi⟩ := getElem?_of_mem hop
  rw [id_eq] at hp
  subst hp
  obtain ⟨t, e, ht, he, hte⟩ := getElem?_zipWith_eq_some.1 hi
  cases t with
  | none => cases hte
  | some oldId =>
    have hpair : (oldId, e.id) = p := Option.some.inj hte
    subst hpair
    exact ⟨i, e, ht, he, rfl⟩

theorem paired_fst (taken : List (Option Int)) (es : List (NewEntry κ ι))
    (h : taken.length = es.length) : (paired taken es).map Prod.fst = taken.filterMap id := by
  induction taken generalizing es with
  | nil => rfl
  | cons t taken ih =>
    cases es with
    | nil => cases h
    | cons e es =>
      have htail := ih es (by simpa using h)
      cases t with
      | none => exact htail
      | some oldId => exact congrArg (List.cons oldId) htail

theorem paired_snd (taken : List (Option Int)) (es : List (NewEntry κ ι)) : ((paired taken es).map Prod.snd).Sublist (es.map NewEntry.id) := by
  induction taken generalizing es with
  | nil => exact nil_sublist _
  | cons t taken ih =>
    cases es with
    | nil => exact List.Sublist.refl _
    | cons e es =>
      cases t with
      | none => exact (ih es).cons e.id
      | some oldId => exact (ih es).cons_cons e.id

section Pairing

variable [DecidableEq ι]

/-- The three books of the pairing tell the same pairs. -/
structure Booked (st : Pairing ι) : Prop where
  superseded : st.supersededBy = (st.updates.map Prod.swap).reverse
  matched : st.matchedOld = st.updates.map Prod.fst

/-- One turn of the pairing loop is one request. -/
theorem pair_eq (st : Pairing ι) (e : NewEntry κ ι) : pair st e = match take st.leftoverByIdentity e.request with
      | (none, _) => st
      | (some oldId, rest) =>
        { leftoverByIdentity := rest
          updates := st.updates ++ [(oldId, e.id)]
          updated := st.updated ++ [e.display]
          supersededBy := (e.id, oldId) :: st.supersededBy
          matchedOld := st.matchedOld ++ [oldId] } := by
  rw [pair]
  cases e.request with
  | none => rfl
  | some identity =>
    rw [Lib.Matching.take]
    dsimp only
    cases st.leftoverByIdentity identity with
    | nil | cons oldId rest => rfl

theorem Booked.pair {st : Pairing ι} (h : Booked st) (e : NewEntry κ ι) : Booked (pair st e) := by
  rw [pair_eq]
  cases take st.leftoverByIdentity e.request with
  | mk got rest =>
    cases got with
    | none => exact h
    | some oldId =>
      constructor
      · simp [h.superseded]
      · simp [h.matched]

theorem foldl_pair_spec (es : List (NewEntry κ ι)) (st : Pairing ι) (h : Booked st) : Booked (es.foldl pair st) ∧
    (es.foldl pair st).updates = st.updates ++ paired (serve st.leftoverByIdentity (es.map NewEntry.request)).1 es := by
  induction es generalizing st with
  | nil =>
    refine ⟨h, ?_⟩
    simp [paired]
  | cons e es ih =>
    obtain ⟨hbooked, hupdates⟩ := ih (pair st e) (h.pair e)
    refine ⟨hbooked, ?_⟩
    rw [foldl_cons, hupdates, map_cons, serve]
    rcases take_cases st.leftoverByIdentity e.request with hnone | ⟨k, oldId, rest, _, _, hsome⟩
    · have hpair : pair st e = st := by
        rw [pair_eq, hnone]
      rw [hpair, hnone]
      rfl
    · have hpair := pair_eq st e
      rw [hsome] at hpair
      rw [hpair, hsome]
      dsimp only
      rw [append_assoc]
      rfl

end Pairing

/-! ## The pairs -/

/-- The pairs of the identity pass are one to one, between leftovers and rows of unknown content. -/
structure OneToOne (old : List (OldEntry κ ι)) (incoming : List (NewEntry κ ι))
    (index : ContentIndex κ) (updates : List (Int × Int)) : Prop where
  old_nodup : (updates.map Prod.fst).Nodup
  new_nodup : (updates.map Prod.snd).Nodup
  leftover : ∀ p ∈ updates, p.1 ∈ old.map OldEntry.id ∧ index.isClaimed p.1 = false
  unknown : ∀ p ∈ updates, ∃ e ∈ incoming, e.id = p.2 ∧ 0 ≤ e.id ∧ e.reused = false ∧ e.contentKnown = false

theorem request_eq_some {e : NewEntry κ ι} {identity : ι} (h : e.request = some identity) : 0 ≤ e.id ∧ e.reused = false ∧ e.contentKnown = false := by
  rw [NewEntry.request] at h
  split at h
  · cases h
  · rename_i hn
    refine ⟨?_, ?_, ?_⟩
    · by_contra hlt
      exact hn (.inl (by omega))
    · cases hr : e.reused with
      | false => rfl
      | true => exact absurd (.inr (.inl hr)) hn
    · cases hc : e.contentKnown with
      | false => rfl
      | true => exact absurd (.inr (.inr hc)) hn

theorem pairing_spec [DecidableEq κ] [DecidableEq ι] {old : List (OldEntry κ ι)} {incoming : List (NewEntry κ ι)}
    {index : ContentIndex κ} (h : Fed old incoming index) : Booked (pairing old incoming index) ∧
    OneToOne old incoming index (pairing old incoming index).updates := by
  obtain ⟨hbooked, hupdates⟩ := foldl_pair_spec incoming
    ⟨queues (fun e : OldEntry κ ι => e.keys.identity) OldEntry.id (leftovers old index), [], [], [], []⟩ ⟨rfl, rfl⟩
  have hleft : ((leftovers old index).map OldEntry.id).Nodup := h.old_nodup.sublist (List.filter_sublist.map OldEntry.id)
  have hserved := serve_spec (incoming.map NewEntry.request) _ (distinct_queues (fun e : OldEntry κ ι => e.keys.identity) hleft)
  have hpairs : ∀ p ∈ (pairing old incoming index).updates, ∃ o ∈ leftovers old index, o.id = p.1 ∧
        ∃ e ∈ incoming, e.id = p.2 ∧ ∃ identity, e.request = some identity := by
    intro p hp
    rw [pairing, hupdates] at hp
    obtain ⟨i, e, ht, he, hid⟩ := mem_paired hp
    obtain ⟨k, hk, hmem⟩ := hserved.named i p.1 ht
    rw [getElem?_map, he] at hk
    obtain ⟨o, ho, _, hoid⟩ := mem_queues.1 hmem
    exact ⟨o, ho, hoid, e, mem_of_getElem? he, hid, k, Option.some.inj hk⟩
  refine ⟨hbooked, ?_, ?_, ?_, ?_⟩
  · rw [pairing, hupdates, nil_append, paired_fst]
    · exact hserved.nodup
    · rw [hserved.length, length_map]
  · rw [pairing, hupdates]
    exact h.nodup.sublist (paired_snd _ incoming)
  · intro p hp
    obtain ⟨o, ho, hoid, _⟩ := hpairs p hp
    obtain ⟨hin, hfree⟩ := mem_filter.1 ho
    rw [Bool.not_eq_true', Bool.or_eq_false_iff] at hfree
    rw [← hoid]
    exact ⟨mem_map_of_mem hin, hfree.1⟩
  · intro p hp
    obtain ⟨_, _, _, e, he, hid, identity, hreq⟩ := hpairs p hp
    exact ⟨e, he, hid, request_eq_some hreq⟩

variable {id : Int}

/-- A row is superseded by the old row of its pair. -/
theorem superseded_iff {st : Pairing ι} (h : Booked st) (hnodup : (st.updates.map Prod.snd).Nodup) {oldId : Int} :
    superseded st id = some oldId ↔ (oldId, id) ∈ st.updates := by
  rw [superseded, h.superseded, Option.map_eq_some_iff]
  constructor
  · rintro ⟨p, hp, rfl⟩
    have hmem := mem_of_find?_eq_some hp
    have hid := find?_some hp
    rw [mem_reverse, mem_map] at hmem
    obtain ⟨q, hq, rfl⟩ := hmem
    rw [decide_eq_true_eq] at hid
    rw [← hid]
    exact hq
  · intro hmem
    have hin : (id, oldId) ∈ (st.updates.map Prod.swap).reverse := mem_reverse.2 (mem_map.2 ⟨(oldId, id), hmem, rfl⟩)
    obtain ⟨p, hp⟩ : ∃ p, (st.updates.map Prod.swap).reverse.find? (fun p => p.1 = id) = some p := by
      rw [← Option.isSome_iff_exists, find?_isSome]
      exact ⟨(id, oldId), hin, by simp⟩
    refine ⟨p, hp, ?_⟩
    have hmem' := mem_of_find?_eq_some hp
    have hid := find?_some hp
    rw [mem_reverse, mem_map] at hmem'
    obtain ⟨q, hq, rfl⟩ := hmem'
    rw [decide_eq_true_eq] at hid
    have hsame := inj_on_of_nodup_map hnodup hq hmem hid
    rw [hsame]
    rfl

theorem superseded_eq_none {st : Pairing ι} (h : Booked st) (hnodup : (st.updates.map Prod.snd).Nodup) :
    superseded st id = none ↔ id ∉ st.updates.map Prod.snd := by
  constructor
  · intro hnone hmem
    obtain ⟨p, hp, rfl⟩ := mem_map.1 hmem
    rw [(superseded_iff h hnodup).2 hp] at hnone
    cases hnone
  · intro hout
    cases hs : superseded st id with
    | none => rfl
    | some oldId =>
      have hpair := (superseded_iff h hnodup).1 hs
      exact absurd (mem_map_of_mem (f := Prod.snd) hpair) hout

/-! ## The last loop -/

/-- The entries with a row. -/
def storedEntries (incoming : List (NewEntry κ ι)) : List (NewEntry κ ι) :=
  incoming.filter fun e => 0 ≤ e.id

/-- The row an entry is listed under. -/
def listedId (st : Pairing ι) (e : NewEntry κ ι) : Int :=
  if e.reused then e.id else (superseded st e.id).getD e.id

/-- The entry's own row gives way to an old one. -/
def givesWay (st : Pairing ι) (e : NewEntry κ ι) : Bool := !e.reused && (superseded st e.id).isSome

/-- The entry's own row is a new server of the group. -/
def isAdded (st : Pairing ι) (e : NewEntry κ ι) : Bool := !e.reused && (superseded st e.id).isNone

theorem foldl_place_spec (st : Pairing ι) (es : List (NewEntry κ ι)) (plan : ReconcilePlan) : es.foldl (place st) plan = { plan with
        order := plan.order ++ (storedEntries es).map (listedId st)
        stale := plan.stale ++ ((storedEntries es).filter (givesWay st)).map NewEntry.id
        added := plan.added ++ ((storedEntries es).filter (isAdded st)).map NewEntry.display } := by
  induction es generalizing plan with
  | nil => simp [storedEntries]
  | cons e es ih =>
    rw [foldl_cons, ih, place]
    by_cases hneg : e.id < 0
    · have hskip : storedEntries (e :: es) = storedEntries es :=
        filter_cons_of_neg (by simpa using hneg)
      rw [if_pos hneg, hskip]
    · have hkeep : storedEntries (e :: es) = e :: storedEntries es :=
        filter_cons_of_pos (by simpa using hneg)
      rw [if_neg hneg, hkeep, map_cons, filter_cons, filter_cons]
      cases hr : e.reused with
      | true => simp [listedId, givesWay, isAdded, hr]
      | false =>
        cases hs : superseded st e.id with
        | none | some oldId => simp [listedId, givesWay, isAdded, hr, hs]

/-! ## The partition -/

/-- Every old id and every new id has exactly one fate, and the order follows the arrivals. -/
structure ExactPartition (old : List (OldEntry κ ι)) (incoming : List (NewEntry κ ι))
    (index : ContentIndex κ) (plan : ReconcilePlan) : Prop where
  /-- An old id is claimed, or the target of one update, or stale. -/
  old_one : ∀ o ∈ old, (index.isClaimed o.id = true ∧ o.id ∉ plan.updates.map Prod.fst ∧ o.id ∉ plan.stale ∧ (0 ≤ o.id → plan.order.count o.id = 1)) ∨
      (index.isClaimed o.id = false ∧ (plan.updates.map Prod.fst).count o.id = 1 ∧ o.id ∉ plan.stale ∧ plan.order.count o.id = 1) ∨
      (index.isClaimed o.id = false ∧ o.id ∉ plan.updates.map Prod.fst ∧ plan.stale.count o.id = 1 ∧ o.id ∉ plan.order)
  /-- A new id is listed, or gives way to the old id of one update. -/
  new_one : ∀ e ∈ storedEntries incoming, e.reused = false → (plan.order.count e.id = 1 ∧ e.id ∉ plan.updates.map Prod.snd ∧ e.id ∉ plan.stale) ∨
      (e.id ∉ plan.order ∧ (plan.updates.map Prod.snd).count e.id = 1 ∧ plan.stale.count e.id = 1)
  /-- The reported additions are the new ids that are listed. -/
  added : plan.added = ((storedEntries incoming).filter fun e =>
    !e.reused && plan.order.contains e.id).map NewEntry.display
  updates_ids : ∀ p ∈ plan.updates, p.1 ∈ old.map OldEntry.id ∧ ∃ e ∈ storedEntries incoming, e.reused = false ∧ e.id = p.2
  stale_ids : ∀ id ∈ plan.stale, id ∈ old.map OldEntry.id ∨ id ∈ plan.updates.map Prod.snd
  order_nodup : plan.order.Nodup
  order_stale : ∀ id ∈ plan.order, id ∉ plan.stale
  /-- One entry for each stored arrival, in their order: its own row, or the old row it updates. -/
  order_follows : List.Forall₂ (fun e id => id = e.id ∨ (e.reused = false ∧ (id, e.id) ∈ plan.updates)) (storedEntries incoming) plan.order

theorem mem_staleOld {old : List (OldEntry κ ι)} {index : ContentIndex κ} {st : Pairing ι} (hb : Booked st) :
    id ∈ (staleOld old index st).map OldEntry.id ↔ id ∈ old.map OldEntry.id ∧ index.isClaimed id = false ∧ id ∉ st.updates.map Prod.fst := by
  rw [mem_map, mem_map]
  constructor
  · rintro ⟨o, ho, rfl⟩
    obtain ⟨hin, hfree⟩ := mem_filter.1 ho
    rw [Bool.not_eq_true', Bool.or_eq_false_iff, hb.matched] at hfree
    refine ⟨⟨o, hin, rfl⟩, hfree.1, ?_⟩
    intro hmem
    rw [← contains_iff_mem, hfree.2] at hmem
    cases hmem
  · rintro ⟨⟨o, hin, rfl⟩, hcl, hout⟩
    refine ⟨o, mem_filter.2 ⟨hin, ?_⟩, rfl⟩
    rw [Bool.not_eq_true', Bool.or_eq_false_iff, hb.matched]
    refine ⟨hcl, ?_⟩
    rw [← Bool.not_eq_true, contains_iff_mem]
    exact hout

section Partition

variable [DecidableEq κ] [DecidableEq ι] {old : List (OldEntry κ ι)} {incoming : List (NewEntry κ ι)} {index : ContentIndex κ}

theorem Reconcile_eq (old : List (OldEntry κ ι)) (incoming : List (NewEntry κ ι)) (index : ContentIndex κ) : Reconcile old incoming index =
      let st := pairing old incoming index
      ⟨(storedEntries incoming).map (listedId st), st.updates, (staleOld old index st).map OldEntry.id
          ++ ((storedEntries incoming).filter (givesWay st)).map NewEntry.id,
        ((storedEntries incoming).filter (isAdded st)).map NewEntry.display, st.updated,
        (staleOld old index st).map OldEntry.display⟩ := by
  rw [Reconcile, foldl_place_spec]
  rfl

variable {e : NewEntry κ ι}

/-- Where an entry is listed: a claimed old id, the old id of its update, or its own new id. -/
theorem listed_cases (h : Fed old incoming index) (he : e ∈ incoming) : (e.reused = true ∧ listedId (pairing old incoming index) e = e.id ∧
    index.isClaimed e.id = true ∧ e.id ∈ old.map OldEntry.id) ∨ (e.reused = false ∧ givesWay (pairing old incoming index) e = true ∧
    (listedId (pairing old incoming index) e, e.id) ∈ (pairing old incoming index).updates) ∨
    (e.reused = false ∧ givesWay (pairing old incoming index) e = false ∧
    listedId (pairing old incoming index) e = e.id ∧ e.id ∉ old.map OldEntry.id ∧
    e.id ∉ (pairing old incoming index).updates.map Prod.snd) := by
  obtain ⟨hbooked, hone⟩ := pairing_spec h
  cases hr : e.reused with
  | true =>
    obtain ⟨hin, hcl⟩ := h.reused e he hr
    refine .inl ⟨rfl, ?_, hcl, hin⟩
    simp [listedId, hr]
  | false =>
    cases hs : superseded (pairing old incoming index) e.id with
    | some oldId =>
      have hlisted : listedId (pairing old incoming index) e = oldId := by
        simp [listedId, hr, hs]
      refine .inr (.inl ⟨rfl, ?_, ?_⟩)
      · simp [givesWay, hr, hs]
      · rw [hlisted]
        exact (superseded_iff hbooked hone.new_nodup).1 hs
    | none =>
      refine .inr (.inr ⟨rfl, ?_, ?_, h.fresh e he hr, ?_⟩)
      · simp [givesWay, hr, hs]
      · simp [listedId, hr, hs]
      · exact (superseded_eq_none hbooked hone.new_nodup).1 hs

/-- Two entries are never listed under one id. -/
theorem listedId_injOn (h : Fed old incoming index) {e' : NewEntry κ ι} (he : e ∈ incoming) (he' : e' ∈ incoming)
    (heq : listedId (pairing old incoming index) e = listedId (pairing old incoming index) e') : e = e' := by
  obtain ⟨_, hone⟩ := pairing_spec h
  apply inj_on_of_nodup_map h.nodup he he'
  rcases listed_cases h he with ⟨_, h₁, hc, ho⟩ | ⟨_, _, hu⟩ | ⟨_, _, h₁, hn, _⟩ <;>
    rcases listed_cases h he' with ⟨_, h₁', hc', ho'⟩ | ⟨_, _, hu'⟩ | ⟨_, _, h₁', hn', _⟩
  · exact h₁.symm.trans (heq.trans h₁')
  · -- A claimed id is no target of an update.
    rw [← heq, h₁] at hu'
    rw [(hone.leftover _ hu').2] at hc
    cases hc
  · rw [← heq, h₁] at h₁'
    rw [← h₁'] at hn'
    exact absurd ho hn'
  · rw [heq, h₁'] at hu
    rw [(hone.leftover _ hu).2] at hc'
    cases hc'
  · rw [heq] at hu
    exact congrArg Prod.snd (inj_on_of_nodup_map hone.old_nodup hu hu' rfl)
  · rw [heq, h₁'] at hu
    exact absurd (hone.leftover _ hu).1 hn'
  · rw [heq, h₁'] at h₁
    rw [← h₁] at hn
    exact absurd ho' hn
  · rw [← heq, h₁] at hu'
    exact absurd (hone.leftover _ hu').1 hn
  · exact h₁.symm.trans (heq.trans h₁')

theorem order_nodup (h : Fed old incoming index) : (Reconcile old incoming index).order.Nodup := by
  rw [Reconcile_eq]
  have hstored : (storedEntries incoming).Nodup := (h.nodup.of_map _).filter _
  apply List.Nodup.map_on _ hstored
  intro e he e' he' heq
  exact listedId_injOn h (mem_filter.1 he).1 (mem_filter.1 he').1 heq

variable {id : Int}

/-- The stale ids: old ids neither claimed nor updated, and the rows that gave way. -/
theorem mem_stale (h : Fed old incoming index) : id ∈ (Reconcile old incoming index).stale ↔
    (id ∈ old.map OldEntry.id ∧ index.isClaimed id = false ∧ id ∉ (Reconcile old incoming index).updates.map Prod.fst) ∨
    id ∈ (Reconcile old incoming index).updates.map Prod.snd := by
  obtain ⟨hbooked, hone⟩ := pairing_spec h
  rw [Reconcile_eq]
  dsimp only
  rw [mem_append, mem_staleOld hbooked]
  apply or_congr Iff.rfl
  rw [mem_map]
  constructor
  · rintro ⟨e, he, rfl⟩
    obtain ⟨hst, hgives⟩ := mem_filter.1 he
    rcases listed_cases h (mem_filter.1 hst).1 with ⟨hr, _⟩ | ⟨_, _, hu⟩ | ⟨_, hno, _⟩
    · rw [givesWay, hr] at hgives
      cases hgives
    · exact mem_map_of_mem (f := Prod.snd) hu
    · rw [hno] at hgives
      cases hgives
  · intro hmem
    obtain ⟨p, hp, rfl⟩ := mem_map.1 hmem
    obtain ⟨e, he, hid, hpos, hr, _⟩ := hone.unknown p hp
    refine ⟨e, mem_filter.2 ⟨mem_filter.2 ⟨he, decide_eq_true hpos⟩, ?_⟩, hid⟩
    rw [givesWay, hr, hid, (superseded_iff hbooked hone.new_nodup).2 hp]
    rfl

theorem updates_snd_fresh (h : Fed old incoming index)
    (hid : id ∈ (Reconcile old incoming index).updates.map Prod.snd) : id ∉ old.map OldEntry.id := by
  rw [Reconcile_eq] at hid
  obtain ⟨p, hp, rfl⟩ := mem_map.1 hid
  obtain ⟨e, he, heq, _, hr, _⟩ := (pairing_spec h).2.unknown p hp
  rw [← heq]
  exact h.fresh e he hr

theorem stale_nodup (h : Fed old incoming index) : (Reconcile old incoming index).stale.Nodup := by
  obtain ⟨hbooked, _⟩ := pairing_spec h
  have hsecond : ∀ id, id ∈ ((storedEntries incoming).filter (givesWay (pairing old incoming index))).map NewEntry.id → id ∉ old.map OldEntry.id := by
    intro id hid
    obtain ⟨e, he, rfl⟩ := mem_map.1 hid
    obtain ⟨hst, hgives⟩ := mem_filter.1 he
    apply h.fresh e (mem_filter.1 hst).1
    rw [givesWay, Bool.and_eq_true, Bool.not_eq_true'] at hgives
    exact hgives.1
  rw [Reconcile_eq]
  apply List.Nodup.append
  · exact h.old_nodup.sublist (List.filter_sublist.map _)
  · exact h.nodup.sublist ((filter_sublist.trans filter_sublist).map _)
  · intro id hfirst hlast
    exact hsecond id hlast ((mem_staleOld hbooked).1 hfirst).1

theorem Reconcile_order : (Reconcile old incoming index).order = (storedEntries incoming).map (listedId (pairing old incoming index)) := by
  rw [Reconcile_eq]

theorem Reconcile_updates : (Reconcile old incoming index).updates = (pairing old incoming index).updates := by
  rw [Reconcile_eq]

theorem listed_mem_order (he : e ∈ storedEntries incoming) : listedId (pairing old incoming index) e ∈ (Reconcile old incoming index).order := by
  rw [Reconcile_order]
  exact mem_map_of_mem he

section

variable (h : Fed old incoming index)

include h

theorem order_stale (hid : id ∈ (Reconcile old incoming index).order) : id ∉ (Reconcile old incoming index).stale := by
  intro hstale
  rw [Reconcile_order] at hid
  obtain ⟨e, he, rfl⟩ := mem_map.1 hid
  have hfresh : ∀ {n : Int}, n ∈ (pairing old incoming index).updates.map Prod.snd → n ∉ old.map OldEntry.id := by
    intro n hn
    rw [← Reconcile_updates] at hn
    exact updates_snd_fresh h hn
  rw [mem_stale h, Reconcile_updates] at hstale
  rcases listed_cases h (mem_filter.1 he).1 with ⟨_, h₁, hc, ho⟩ | ⟨_, _, hu⟩ |
    ⟨_, _, h₁, hn, hs⟩
  · rw [h₁] at hstale
    rcases hstale with ⟨_, hfree, _⟩ | hsnd
    · rw [hc] at hfree
      cases hfree
    · exact hfresh hsnd ho
  · rcases hstale with ⟨_, _, hout⟩ | hsnd
    · exact hout (mem_map_of_mem (f := Prod.fst) hu)
    · exact hfresh hsnd ((pairing_spec h).2.leftover _ hu).1
  · rw [h₁] at hstale
    rcases hstale with ⟨hin, _⟩ | hsnd
    · exact hn hin
    · exact hs hsnd

/-- A new id is listed exactly when its row does not give way. -/
theorem new_mem_order (he : e ∈ storedEntries incoming) (hr : e.reused = false) : e.id ∈ (Reconcile old incoming index).order ↔
    e.id ∉ (Reconcile old incoming index).updates.map Prod.snd := by
  constructor
  · intro hin hsnd
    exact order_stale h hin ((mem_stale h).2 (.inr hsnd))
  · intro hsnd
    rw [Reconcile_updates] at hsnd
    rcases listed_cases h (mem_filter.1 he).1 with ⟨hr', _⟩ | ⟨_, _, hu⟩ | ⟨_, _, h₁, _⟩
    · rw [hr] at hr'
      cases hr'
    · exact absurd (mem_map_of_mem (f := Prod.snd) hu) hsnd
    · rw [← h₁]
      exact listed_mem_order he

theorem claimed_fate (hcl : index.isClaimed id = true) : id ∉ (Reconcile old incoming index).updates.map Prod.fst ∧
    id ∉ (Reconcile old incoming index).stale ∧ (0 ≤ id → (Reconcile old incoming index).order.count id = 1) := by
  obtain ⟨hold, e, he, hr, heq⟩ := h.claimed id hcl
  refine ⟨?_, ?_, ?_⟩
  · intro hfst
    rw [Reconcile_updates] at hfst
    obtain ⟨p, hp, rfl⟩ := mem_map.1 hfst
    rw [((pairing_spec h).2.leftover p hp).2] at hcl
    cases hcl
  · rw [mem_stale h]
    rintro (⟨_, hfree, _⟩ | hsnd)
    · rw [hcl] at hfree
      cases hfree
    · exact updates_snd_fresh h hsnd hold
  · intro hpos
    apply count_eq_one_of_mem (order_nodup h)
    have hlisted : listedId (pairing old incoming index) e = id := by
      simp [listedId, hr, heq]
    rw [← hlisted]
    apply listed_mem_order
    exact mem_filter.2 ⟨he, decide_eq_true (heq ▸ hpos)⟩

theorem updated_fate (hfst : id ∈ (Reconcile old incoming index).updates.map Prod.fst) :
    ((Reconcile old incoming index).updates.map Prod.fst).count id = 1 ∧ id ∉ (Reconcile old incoming index).stale ∧
    (Reconcile old incoming index).order.count id = 1 := by
  obtain ⟨hbooked, hone⟩ := pairing_spec h
  refine ⟨?_, ?_, ?_⟩
  · apply count_eq_one_of_mem _ hfst
    rw [Reconcile_updates]
    exact hone.old_nodup
  · rw [mem_stale h]
    rintro (⟨_, _, hout⟩ | hsnd)
    · exact hout hfst
    · apply updates_snd_fresh h hsnd
      rw [Reconcile_updates] at hfst
      obtain ⟨p, hp, rfl⟩ := mem_map.1 hfst
      exact (hone.leftover p hp).1
  · apply count_eq_one_of_mem (order_nodup h)
    rw [Reconcile_updates] at hfst
    obtain ⟨p, hp, rfl⟩ := mem_map.1 hfst
    obtain ⟨e, he, heq, hpos, hr, _⟩ := hone.unknown p hp
    have hlisted : listedId (pairing old incoming index) e = p.1 := by
      have hs := (superseded_iff hbooked hone.new_nodup).2 hp
      rw [← heq] at hs
      simp [listedId, hr, hs]
    rw [← hlisted]
    exact listed_mem_order (mem_filter.2 ⟨he, decide_eq_true hpos⟩)

theorem Reconcile_added : (Reconcile old incoming index).added = ((storedEntries incoming).filter fun e =>
      !e.reused && (Reconcile old incoming index).order.contains e.id).map NewEntry.display := by
  obtain ⟨hbooked, hone⟩ := pairing_spec h
  have hadded : (Reconcile old incoming index).added = ((storedEntries incoming).filter (isAdded (pairing old incoming index))).map
        NewEntry.display := by
    rw [Reconcile_eq]
  rw [hadded]
  apply congrArg (List.map NewEntry.display)
  apply filter_congr
  intro e he
  cases hr : e.reused with
  | true => simp [isAdded, hr]
  | false =>
    rw [isAdded, hr, Bool.not_false, Bool.true_and, Bool.true_and, Bool.eq_iff_iff,
      Option.isNone_iff_eq_none, contains_iff_mem, new_mem_order h he hr, Reconcile_updates]
    exact superseded_eq_none hbooked hone.new_nodup

theorem exactPartition : ExactPartition old incoming index (Reconcile old incoming index) := by
  obtain ⟨_, hone⟩ := pairing_spec h
  refine ⟨?_, ?_, Reconcile_added h, ?_, ?_, order_nodup h, fun _ => order_stale h, ?_⟩
  · intro o ho
    cases hcl : index.isClaimed o.id with
    | true => exact .inl ⟨rfl, claimed_fate h hcl⟩
    | false =>
      by_cases hfst : o.id ∈ (Reconcile old incoming index).updates.map Prod.fst
      · exact .inr (.inl ⟨rfl, updated_fate h hfst⟩)
      · have hstale : o.id ∈ (Reconcile old incoming index).stale :=
          (mem_stale h).2 (.inl ⟨mem_map_of_mem ho, hcl, hfst⟩)
        refine .inr (.inr ⟨rfl, hfst, count_eq_one_of_mem (stale_nodup h) hstale, ?_⟩)
        intro hin
        exact order_stale h hin hstale
  · intro e he hr
    by_cases hsnd : e.id ∈ (Reconcile old incoming index).updates.map Prod.snd
    · have hstale : e.id ∈ (Reconcile old incoming index).stale :=
        (mem_stale h).2 (.inr hsnd)
      refine .inr ⟨?_, ?_, count_eq_one_of_mem (stale_nodup h) hstale⟩
      · intro hin
        exact order_stale h hin hstale
      · apply count_eq_one_of_mem _ hsnd
        rw [Reconcile_updates]
        exact hone.new_nodup
    · have hin := (new_mem_order h he hr).2 hsnd
      exact .inl ⟨count_eq_one_of_mem (order_nodup h) hin, hsnd, order_stale h hin⟩
  · intro p hp
    rw [Reconcile_updates] at hp
    obtain ⟨e, he, heq, hpos, hr, _⟩ := hone.unknown p hp
    exact ⟨(hone.leftover p hp).1, e, mem_filter.2 ⟨he, decide_eq_true hpos⟩, hr, heq⟩
  · intro id hid
    rcases (mem_stale h).1 hid with ⟨hin, _⟩ | hsnd
    · exact .inl hin
    · exact .inr hsnd
  · rw [Reconcile_order, Reconcile_updates, List.forall₂_map_right_iff, List.forall₂_same]
    intro e he
    rcases listed_cases h (mem_filter.1 he).1 with ⟨_, h₁, _⟩ | ⟨hr, _, hu⟩ | ⟨_, _, h₁, _⟩
    · exact .inl h₁
    · exact .inr ⟨hr, hu⟩
    · exact .inl h₁

end

/-! ## A document that has not changed -/

omit [DecidableEq ι] in
/-- Arrivals with the contents of the old profiles, in their order, claim all of them. -/
theorem feed_unchanged {arrivals : List (Arrival κ ι)}
    (hsame : arrivals.map (fun ent => ent.keys.content) = old.map fun e => e.keys.content) (first : Int) :
    (feed old arrivals first).index.claimedIds = old.map OldEntry.id ∧ ∀ e ∈ (feed old arrivals first).entries, e.reused = true := by
  have hcontents : contents arrivals = old.map fun e => some e.keys.content := by
    have := congrArg (List.map some) hsame
    rw [map_map, map_map] at this
    exact this
  have hself := serve_self (fun e : OldEntry κ ι => e.keys.content) OldEntry.id old
  obtain ⟨hentries, hclaimed, _⟩ := feed_spec old arrivals first
  rw [hcontents, hself] at hentries
  rw [hcontents, served, hself] at hclaimed
  refine ⟨?_, ?_⟩
  · rw [hclaimed, filterMap_map]
    exact congrFun filterMap_eq_map old
  · intro e he
    rw [hentries] at he
    obtain ⟨e₀, he₀, hid, _⟩ := mem_number he
    rw [hid]
    obtain ⟨i, hi⟩ := getElem?_of_mem he₀
    obtain ⟨claim, ent, hclaim, _, rfl⟩ := getElem?_zipWith_eq_some.1 hi
    rw [getElem?_map, Option.map_eq_some_iff] at hclaim
    obtain ⟨o, _, rfl⟩ := hclaim
    rfl

theorem reconcile_unchanged {arrivals : List (Arrival κ ι)} {first : Int}
    (hsame : arrivals.map (fun ent => ent.keys.content) = old.map fun e => e.keys.content)
    (hold : (old.map OldEntry.id).Nodup) (hfirst : ∀ e ∈ old, e.id < first) :
    let sink := feed old arrivals first
    let plan := Reconcile old sink.entries sink.index
    plan.updates = [] ∧ plan.added = [] ∧ plan.stale = [] := by
  intro sink plan
  obtain ⟨hclaimed, hreused⟩ := feed_unchanged hsame first
  have hfed := fed_feed arrivals hold hfirst
  have hupdates : plan.updates = [] := by
    apply eq_nil_iff_forall_not_mem.2
    intro p hp
    rw [Reconcile_updates] at hp
    obtain ⟨e, he, _, _, hr, _⟩ := (pairing_spec hfed).2.unknown p hp
    rw [hreused e he] at hr
    cases hr
  refine ⟨hupdates, ?_, ?_⟩
  · rw [Reconcile_added hfed]
    have hnone : ((storedEntries sink.entries).filter fun e =>
      !e.reused && plan.order.contains e.id) = [] := by
      rw [filter_eq_nil_iff]
      intro e he
      rw [hreused e (mem_filter.1 he).1]
      simp
    rw [hnone]
    rfl
  · apply eq_nil_iff_forall_not_mem.2
    intro id hid
    rcases (mem_stale hfed).1 hid with ⟨hin, hfree, _⟩ | hsnd
    · rw [ContentIndex.isClaimed, hclaimed, ← Bool.not_eq_true, contains_iff_mem] at hfree
      exact hfree hin
    · rw [hupdates] at hsnd
      cases hsnd

/-- For every old listing of distinct ids and every document: the entries follow the arrivals, the
plan is an exact partition of the ids, and a document with the contents of the old listing plans
nothing. The ids of the flush are above the old ones. -/
theorem reconcile_partition (old : List (OldEntry κ ι)) (arrivals : List (Arrival κ ι)) (first : Int)
    (hold : (old.map OldEntry.id).Nodup) (hfirst : ∀ e ∈ old, e.id < first) :
    let sink := feed old arrivals first
    let plan := Reconcile old sink.entries sink.index
    List.Forall₂ (Follows old first) arrivals sink.entries ∧ ExactPartition old sink.entries sink.index plan ∧
      (arrivals.map (fun ent => ent.keys.content) = old.map (fun e => e.keys.content) → plan.updates = [] ∧ plan.added = [] ∧ plan.stale = []) :=
  ⟨feed_follows arrivals first hold, exactPartition (fed_feed arrivals hold hfirst), fun hsame => reconcile_unchanged hsame hold hfirst⟩

end Partition

/-- Two equal old rows, one that the remote renamed, one that it dropped. -/
def renamedOld : List (OldEntry String String) :=
  [⟨1, ⟨"a", "one"⟩, "a"⟩, ⟨2, ⟨"a", "one"⟩, "a"⟩, ⟨3, ⟨"b", "two"⟩, "b"⟩, ⟨4, ⟨"c", "three"⟩, "c"⟩]

def renamedArrivals : List (Arrival String String) :=
  [⟨⟨"b'", "two"⟩, "b'"⟩, ⟨⟨"a", "one"⟩, "a"⟩, ⟨⟨"a", "one"⟩, "a"⟩, ⟨⟨"a", "one"⟩, "a again"⟩]

theorem reconcile_partition_renamed :
    let sink := feed renamedOld renamedArrivals 10
    let plan := Reconcile renamedOld sink.entries sink.index
    plan = ⟨[3, 1, 2, 11], [(3, 10)], [4, 10], ["a again"], ["b'"], ["c"]⟩ ∧ ExactPartition renamedOld sink.entries sink.index plan :=
  ⟨by decide, (reconcile_partition renamedOld renamedArrivals 10 (by decide) (by decide)).2.1⟩

end Throne.Subscription
