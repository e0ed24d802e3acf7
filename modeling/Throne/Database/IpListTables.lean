import Mathlib.Data.List.Sort

/-!
# The tables of the IP lists

`src/src/database/IpListsRepo.cpp`: `ip_lists` and `ip_list_entries`, with the statements the
repository runs on them. A list has a header that points to one generation of its entry rows;
readers see the rows of that generation (`visible`). The keys of the two tables are fields of `Db`:
no two rows of one generation share an order or a target, every row has a header, and every header
id came from the counter.

`rowsAt` is a generation as the table holds it and `ordered` what `ORDER BY entry_order` makes of
it. Each statement has one lemma for `pointer` and one for `rowsAt`.
-/

namespace Throne.Database.IpLists

open List

/-! ## Rows and headers -/

/-- `IpListEntry`. -/
structure Entry where
  cidr : String
  port : Int
  latencyMs : Int
  deriving DecidableEq

/-- The unique index of the entries: one row for each target. -/
def Entry.target (e : Entry) : String × Int := (e.cidr, e.port)

/-- A row of `ip_list_entries`. -/
structure Row where
  list : Nat
  generation : Nat
  order : Nat
  entry : Entry
  deriving DecidableEq

/-- The row belongs to that generation of that list. -/
def Row.isAt (r : Row) (id generation : Nat) : Bool := r.list == id && r.generation == generation

/-- Two rows that the primary key or the unique index keeps apart. -/
def Row.clashes (a b : Row) : Bool := b.isAt a.list a.generation && (a.order == b.order || a.entry.target == b.entry.target)

/-- The row with the latency of `e`, if it is that target of that generation. -/
def Row.withLatency (r : Row) (id generation : Nat) (e : Entry) : Row :=
  if r.isAt id generation && r.entry.target == e.target
  then { r with entry := { r.entry with latencyMs := e.latencyMs } } else r

/-- A row of `ip_lists`: of the header only what the generations depend on. `detached` stands for
the role and owner `DetachIpList` writes. -/
structure Header where
  id : Nat
  generation : Nat
  detached : Bool

/-- The tables. -/
structure Db where
  headers : List Header
  rows : List Row
  lastId : Nat
  keyed : rows.Pairwise fun a b => a.clashes b = false
  owned : ∀ r ∈ rows, ∃ h ∈ headers, h.id = r.list
  issued : ∀ h ∈ headers, h.id ≤ lastId

namespace Db

section

variable (db : Db)

variable (id : Nat)

/-- The header of a list. -/
def header : Option Header := db.headers.find? fun h => h.id == id

/-- `ipListsRepoGeneration`: the generation a list points to, `none` for its -1. -/
def pointer : Option Nat := (db.header id).map (·.generation)

/-- One generation of one list, as the table holds it. -/
def rowsAt (id generation : Nat) : List Row :=
  db.rows.filter fun r => r.isAt id generation

/-- `ORDER BY entry_order`. -/
def ordered (id generation : Nat) : List Row :=
  (db.rowsAt id generation).insertionSort fun a b => a.order ≤ b.order

/-- What readers see of a list, `none` when there is no such list. -/
def visible : Option (List Entry) :=
  (db.pointer id).map fun generation => (db.ordered id generation).map (·.entry)

/-! ## Statements -/

/-- `DELETE FROM ip_list_entries WHERE ...`. -/
def deleteRows (gone : Row → Bool) : Db :=
  { db with
    rows := db.rows.filter fun r => !gone r
    keyed := db.keyed.filter _
    owned := fun r hr => db.owned r (mem_of_mem_filter hr) }

/-- The row can be inserted: its list exists and no key forbids it. -/
def admits (r : Row) : Bool :=
  (db.header r.list).isSome && !db.rows.any fun other => other.clashes r

theorem header_mem {db : Db} {id : Nat} (h : (db.header id).isSome = true) : ∃ x ∈ db.headers, x.id = id := by
  obtain ⟨x, hx⟩ := Option.isSome_iff_exists.1 h
  exact ⟨x, mem_of_find?_eq_some hx, by simpa using find?_some hx⟩

/-- `INSERT OR IGNORE`. -/
def insertOrIgnore (r : Row) : Db :=
  if h : db.admits r = true then
    { db with
      rows := db.rows ++ [r]
      keyed := by
        simp only [admits, Bool.and_eq_true, Bool.not_eq_true', any_eq_false] at h
        refine pairwise_append.2 ⟨db.keyed, pairwise_singleton _ _, ?_⟩
        intro a ha b hb
        obtain rfl := mem_singleton.1 hb
        simpa using h.2 a ha
      owned := by
        intro x hx
        rcases mem_append.1 hx with hx | hx
        · exact db.owned x hx
        · obtain rfl := mem_singleton.1 hx
          simp only [admits, Bool.and_eq_true] at h
          exact header_mem h.1 }
  else db

/-- `UPDATE ip_lists SET ... WHERE id = ?`. -/
def updateHeader (f : Header → Header) (hf : ∀ h, (f h).id = h.id) : Db :=
  { db with
    headers := db.headers.map fun h => if h.id == id then f h else h
    owned := by
      intro r hr
      obtain ⟨h, hh, hid⟩ := db.owned r hr
      refine ⟨_, mem_map.2 ⟨h, hh, rfl⟩, ?_⟩
      split
      · exact (hf h).trans hid
      · exact hid
    issued := by
      intro h hh
      obtain ⟨x, hx, rfl⟩ := mem_map.1 hh
      have hle := db.issued x hx
      split
      · rw [hf x]
        exact hle
      · exact hle }

/-- `UPDATE ip_lists SET entries_generation = ? WHERE id = ?`. -/
def setGeneration (id generation : Nat) : Db :=
  db.updateHeader id (fun h => { h with generation := generation }) fun _ => rfl

/-- `UPDATE ip_lists SET role = ?, related_test_id = ? WHERE id = ?`. -/
def setDetached (detached : Bool) : Db :=
  db.updateHeader id (fun h => { h with detached := detached }) fun _ => rfl

/-- `UPDATE ip_list_entries SET latency_ms = ? WHERE` it is that target of that generation. -/
def setLatency (id generation : Nat) (e : Entry) : Db :=
  { db with
    rows := db.rows.map fun r => r.withLatency id generation e
    keyed := by
      refine pairwise_map.2 (db.keyed.imp ?_)
      intro a b hab
      -- keys do not read the latency
      rw [Row.withLatency, Row.withLatency]
      split <;> split <;> exact hab
    owned := by
      intro r hr
      obtain ⟨x, hx, rfl⟩ := mem_map.1 hr
      obtain ⟨h, hh, hid⟩ := db.owned x hx
      refine ⟨h, hh, ?_⟩
      rw [Row.withLatency]
      split <;> exact hid }

/-- `NewIpListID` and `ipListsRepoInsertHeader`: a new list at generation 0. -/
def addHeader (detached : Bool) : Db :=
  { db with
    headers := ⟨db.lastId + 1, 0, detached⟩ :: db.headers
    lastId := db.lastId + 1
    owned := by
      intro r hr
      obtain ⟨h, hh, hid⟩ := db.owned r hr
      exact ⟨h, mem_cons_of_mem _ hh, hid⟩
    issued := by
      intro h hh
      rcases mem_cons.1 hh with rfl | hh
      · exact Nat.le_refl _
      · exact Nat.le_succ_of_le (db.issued h hh) }

/-- `DELETE FROM ip_lists WHERE id = ?`; the rows go with it. -/
def removeHeader : Db :=
  { db with
    headers := db.headers.filter fun h => h.id != id
    rows := db.rows.filter fun r => r.list != id
    keyed := db.keyed.filter _
    owned := by
      intro r hr
      obtain ⟨hr, hne⟩ := mem_filter.1 hr
      obtain ⟨h, hh, hid⟩ := db.owned r hr
      exact ⟨h, mem_filter.2 ⟨hh, by rw [hid]; exact hne⟩, hid⟩
    issued := fun h hh => db.issued h (mem_of_mem_filter hh) }

/-! ## What the statements change -/

theorem header_updateHeader (f : Header → Header) (hf : ∀ h, (f h).id = h.id) (x : Nat) :
    (db.updateHeader id f hf).header x = (db.header x).map fun h => if h.id == id then f h else h := by
  simp only [header, updateHeader, find?_map]
  congr 2
  funext h
  show ((if h.id == id then f h else h).id == x) = (h.id == x)
  split
  · rw [hf h]
  · rfl

end

theorem header_id {db : Db} {x : Nat} {h : Header} (hx : db.header x = some h) : h.id = x := by
  simpa using find?_some hx

section

variable (db : Db)

include db

@[simp] theorem pointer_setGeneration (id generation x : Nat) : (db.setGeneration id generation).pointer x =
    if x = id then (db.pointer x).map fun _ => generation else db.pointer x := by
  rw [pointer, pointer, setGeneration, header_updateHeader]
  rcases hx : db.header x with _ | h
  · simp
  · have hid := header_id hx
    by_cases hxid : x = id <;> simp [hid, hxid]

@[simp] theorem pointer_setDetached (id : Nat) (detached : Bool) (x : Nat) : (db.setDetached id detached).pointer x = db.pointer x := by
  rw [pointer, pointer, setDetached, header_updateHeader]
  rcases db.header x with _ | h
  · rfl
  · simp only [Option.map_some]
    split <;> rfl

@[simp] theorem pointer_addHeader (detached : Bool) (x : Nat) :
    (db.addHeader detached).pointer x = if x = db.lastId + 1 then some 0 else db.pointer x := by
  simp only [pointer, header, addHeader, find?_cons]
  by_cases hx : x = db.lastId + 1
  · simp [hx]
  · have hne : (db.lastId + 1 == x) = false := by simpa using Ne.symm hx
    simp only [hne, if_neg hx]

@[simp] theorem pointer_removeHeader (id x : Nat) : (db.removeHeader id).pointer x = if x = id then none else db.pointer x := by
  simp only [pointer, header, removeHeader, find?_filter]
  by_cases hx : x = id
  · rw [if_pos hx, find?_eq_none.2]
    · rfl
    · intro h _
      simp [hx]
  · rw [if_neg hx]
    congr 2
    funext h
    by_cases hh : h.id = x
    · simp [hh, hx]
    · simp [hh]

@[simp] theorem rowsAt_setGeneration (id generation x g : Nat) :
    (db.setGeneration id generation).rowsAt x g = db.rowsAt x g := rfl

@[simp] theorem rowsAt_setDetached (id : Nat) (detached : Bool) (x g : Nat) :
    (db.setDetached id detached).rowsAt x g = db.rowsAt x g := rfl

@[simp] theorem rowsAt_addHeader (detached : Bool) (x g : Nat) :
    (db.addHeader detached).rowsAt x g = db.rowsAt x g := rfl

theorem rowsAt_deleteRows (gone : Row → Bool) (x g : Nat) : (db.deleteRows gone).rowsAt x g = (db.rowsAt x g).filter fun r => !gone r :=
  filter_comm _ _ _

theorem rowsAt_removeHeader (id x g : Nat) : (db.removeHeader id).rowsAt x g = if x = id then [] else db.rowsAt x g := by
  simp only [rowsAt, removeHeader, filter_filter]
  by_cases hx : x = id
  · rw [if_pos hx, filter_eq_nil_iff]
    intro r _
    simp only [Row.isAt, Bool.and_eq_true, beq_iff_eq, bne_iff_ne]
    rintro ⟨⟨h1, -⟩, h2⟩
    exact h2 (h1.trans hx)
  · rw [if_neg hx]
    apply filter_congr
    intro r _
    by_cases hr : r.list = x
    · simp [Row.isAt, hr, hx]
    · simp [Row.isAt, hr]

theorem rowsAt_insertOrIgnore (r : Row) (x g : Nat) : (db.insertOrIgnore r).rowsAt x g =
    if db.admits r = true ∧ r.isAt x g = true then db.rowsAt x g ++ [r] else db.rowsAt x g := by
  rw [insertOrIgnore]
  by_cases hadmits : db.admits r = true
  · by_cases hat : r.isAt x g = true
    all_goals simp [rowsAt, hadmits, hat, filter_append]
  · simp [hadmits]

theorem rowsAt_setLatency (id generation : Nat) (e : Entry) (x g : Nat) :
    (db.setLatency id generation e).rowsAt x g = (db.rowsAt x g).map fun r => r.withLatency id generation e := by
  rw [rowsAt, setLatency, filter_map]
  congr 2
  funext r
  show (r.withLatency id generation e).isAt x g = r.isAt x g
  rw [Row.withLatency]
  split <;> rfl

/-- A list nobody was given the id of has no rows. -/
theorem rowsAt_new (g : Nat) : db.rowsAt (db.lastId + 1) g = [] := by
  rw [rowsAt, filter_eq_nil_iff]
  intro r hr hat
  obtain ⟨h, hh, hid⟩ := db.owned r hr
  have hle := db.issued h hh
  simp only [Row.isAt, Bool.and_eq_true, beq_iff_eq] at hat
  omega

end

theorem le_lastId_of_pointer {db : Db} {id g : Nat} (h : db.pointer id = some g) : id ≤ db.lastId := by
  obtain ⟨x, hx, -⟩ := Option.map_eq_some_iff.1 h
  rw [← header_id hx]
  exact db.issued x (mem_of_find?_eq_some hx)

/-! ## Statements on one generation -/

/-- `db'` differs from `db` in the rows of that generation of that list only. -/
structure OnlyAt (id generation : Nat) (db db' : Db) : Prop where
  headers : db'.headers = db.headers
  lastId : db'.lastId = db.lastId
  rows : ∀ x g, ¬ (x = id ∧ g = generation) → db'.rowsAt x g = db.rowsAt x g

section OnlyAt

variable {id generation : Nat} {db db' db'' : Db}

theorem OnlyAt.refl : OnlyAt id generation db db := ⟨rfl, rfl, fun _ _ _ => rfl⟩

theorem OnlyAt.trans (h : OnlyAt id generation db db') (h' : OnlyAt id generation db' db'') : OnlyAt id generation db db'' :=
  ⟨h'.headers.trans h.headers, h'.lastId.trans h.lastId, fun x g hne => (h'.rows x g hne).trans (h.rows x g hne)⟩

theorem OnlyAt.header (h : OnlyAt id generation db db') (x : Nat) : db'.header x = db.header x := by
  rw [Db.header, Db.header, h.headers]

theorem OnlyAt.pointer (h : OnlyAt id generation db db') (x : Nat) : db'.pointer x = db.pointer x := by
  rw [Db.pointer, Db.pointer, h.header x]

/-- A fold of statements on one generation changes that generation only. -/
theorem onlyAt_foldl {α : Type} {f : Db → α → Db} (hf : ∀ db a, OnlyAt id generation db (f db a))
    (l : List α) (db : Db) : OnlyAt id generation db (l.foldl f db) := by
  induction l generalizing db with
  | nil => exact OnlyAt.refl
  | cons a l ih => exact (hf db a).trans (ih (f db a))

theorem onlyAt_deleteRows {gone : Row → Bool} (hgone : ∀ r, gone r = true → r.isAt id generation = true) (db : Db) :
    OnlyAt id generation db (db.deleteRows gone) := by
  refine ⟨rfl, rfl, ?_⟩
  intro x g hne
  rw [rowsAt_deleteRows, filter_eq_self]
  intro r hr
  obtain ⟨-, hat⟩ := mem_filter.1 hr
  -- a row of `(x, g)` is not one of the generation that is deleted from
  have hstays : gone r = false := by
    by_contra hg
    have hthere := hgone r (by simpa using hg)
    simp only [Row.isAt, Bool.and_eq_true, beq_iff_eq] at hat hthere
    exact hne ⟨hat.1.symm.trans hthere.1, hat.2.symm.trans hthere.2⟩
  simp [hstays]

theorem onlyAt_insertOrIgnore (order : Nat) (e : Entry) (db : Db) : OnlyAt id generation db (db.insertOrIgnore ⟨id, generation, order, e⟩) := by
  refine ⟨?_, ?_, ?_⟩
  · rw [insertOrIgnore]
    split <;> rfl
  · rw [insertOrIgnore]
    split <;> rfl
  · intro x g hne
    rw [rowsAt_insertOrIgnore, if_neg]
    rintro ⟨-, hat⟩
    simp only [Row.isAt, Bool.and_eq_true, beq_iff_eq] at hat
    exact hne ⟨hat.1.symm, hat.2.symm⟩

theorem onlyAt_setLatency (e : Entry) (db : Db) : OnlyAt id generation db (db.setLatency id generation e) := by
  refine ⟨rfl, rfl, ?_⟩
  intro x g hne
  rw [rowsAt_setLatency]
  conv_rhs => rw [← map_id (db.rowsAt x g)]
  apply map_congr_left
  intro r hr
  obtain ⟨-, hat⟩ := mem_filter.1 hr
  rw [Row.withLatency, if_neg, id_eq]
  intro hthere
  simp only [Row.isAt, Bool.and_eq_true, beq_iff_eq] at hat hthere
  exact hne ⟨hat.1.symm.trans hthere.1.1, hat.2.symm.trans hthere.1.2⟩

end OnlyAt

variable (db : Db) (id generation : Nat)

/-- `ipListsRepoInsertEntries`: each entry under its position in the whole list. -/
def insertEntries (chunk : List (Entry × Nat)) : Db :=
  chunk.foldl (fun db p => db.insertOrIgnore ⟨id, generation, p.2, p.1⟩) db

theorem onlyAt_insertEntries (chunk : List (Entry × Nat)) : OnlyAt id generation db (db.insertEntries id generation chunk) :=
  onlyAt_foldl (fun db p => onlyAt_insertOrIgnore p.2 p.1 db) chunk db

/-- A row is admitted when its list exists and its own generation has no row it clashes with. -/
theorem admits_of_rowsAt {db : Db} {r : Row} (hheader : (db.header r.list).isSome = true)
    (hfree : ∀ other ∈ db.rowsAt r.list r.generation, other.clashes r = false) : db.admits r = true := by
  rw [admits, hheader, Bool.true_and, Bool.not_eq_true', any_eq_false]
  intro other hmem hclash
  have hat : other.isAt r.list r.generation = true := by
    simp only [Row.clashes, Row.isAt, Bool.and_eq_true, beq_iff_eq] at hclash ⊢
    exact ⟨hclash.1.1.symm, hclash.1.2.symm⟩
  rw [hfree other (mem_filter.2 ⟨hmem, hat⟩)] at hclash
  cases hclash

/-- The rows of a chunk. -/
def chunkRows (chunk : List (Entry × Nat)) : List Row :=
  chunk.map fun p => ⟨id, generation, p.2, p.1⟩

/-- A chunk that clashes neither with the generation nor with itself is appended whole. -/
theorem rowsAt_insertEntries {id generation : Nat} (chunk : List (Entry × Nat)) (db : Db) (hheader : (db.header id).isSome = true)
    (hfree : (db.rowsAt id generation ++ chunkRows id generation chunk).Pairwise fun a b => a.clashes b = false) :
    (db.insertEntries id generation chunk).rowsAt id generation = db.rowsAt id generation ++ chunkRows id generation chunk := by
  induction chunk generalizing db with
  | nil => simp [insertEntries, chunkRows]
  | cons p chunk ih =>
    have hadmits : db.admits ⟨id, generation, p.2, p.1⟩ = true := by
      apply admits_of_rowsAt hheader
      intro other hother
      exact (pairwise_append.1 hfree).2.2 other hother _ mem_cons_self
    have hat : Row.isAt ⟨id, generation, p.2, p.1⟩ id generation = true := by simp [Row.isAt]
    have hrows : (db.insertOrIgnore ⟨id, generation, p.2, p.1⟩).rowsAt id generation = db.rowsAt id generation ++ [⟨id, generation, p.2, p.1⟩] := by
      rw [rowsAt_insertOrIgnore, if_pos ⟨hadmits, hat⟩]
    have hnext := ih (db.insertOrIgnore ⟨id, generation, p.2, p.1⟩) (by rw [(onlyAt_insertOrIgnore p.2 p.1 db).header]; exact hheader)
      (by rw [hrows, append_assoc]; exact hfree)
    rw [hrows, append_assoc] at hnext
    exact hnext

/-! ## Chunked writes -/

/-- `kIpListsRepoChunkRows`. -/
def kIpListsRepoChunkRows : Nat := 20000

theorem kIpListsRepoChunkRows_pos : 0 < kIpListsRepoChunkRows := by decide

/-- One batch of `ipListsRepoPurgeGeneration`, and whether more is to come. -/
def purgeBatch : Db × Bool :=
  match (db.ordered id generation)[kIpListsRepoChunkRows - 1]? with
  | some bound =>
    (db.deleteRows fun r => r.isAt id generation && decide (r.order ≤ bound.order), true)
  | none => (db.deleteRows fun r => r.isAt id generation, false)

theorem onlyAt_purgeBatch : OnlyAt id generation db (db.purgeBatch id generation).1 := by
  rw [purgeBatch]
  split
  · apply onlyAt_deleteRows
    intro r hr
    exact (Bool.and_eq_true _ _ ▸ hr).1
  · exact onlyAt_deleteRows (fun _ hr => hr) db

/-- The order `UpsertEntries` appends at. -/
def nextOrder : Nat :=
  match (db.ordered id generation).getLast? with
  | some r => r.order + 1
  | none => 0

/-- The body of the loop of `UpsertEntries`: insert, or update the latency of the row in the way. -/
def upsertEntry (st : Db × Nat) (e : Entry) : Db × Nat :=
  if e.cidr.isEmpty then st
  else if st.1.admits ⟨id, generation, st.2, e⟩ then
    (st.1.insertOrIgnore ⟨id, generation, st.2, e⟩, st.2 + 1)
  else (st.1.setLatency id generation e, st.2)

variable (chunk : List Entry)

/-- One chunk of `UpsertEntries`. -/
def upsertChunk : Db := (chunk.foldl (upsertEntry id generation) (db, db.nextOrder id generation)).1

theorem onlyAt_upsertChunk : OnlyAt id generation db (db.upsertChunk id generation chunk) := by
  have hfold : ∀ (st : Db × Nat), OnlyAt id generation st.1 (chunk.foldl (upsertEntry id generation) st).1 := by
    induction chunk with
    | nil => exact fun _ => OnlyAt.refl
    | cons e chunk ih =>
      intro st
      refine OnlyAt.trans ?_ (ih (upsertEntry id generation st e))
      rw [upsertEntry]
      split_ifs
      · exact OnlyAt.refl
      · exact onlyAt_insertOrIgnore st.2 e st.1
      · exact onlyAt_setLatency e st.1
  exact hfold (db, db.nextOrder id generation)

/-- One chunk of `RemoveEntries`. -/
def removeChunk : Db :=
  chunk.foldl (fun db e => db.deleteRows fun r => r.isAt id generation && r.entry.target == e.target) db

theorem onlyAt_removeChunk : OnlyAt id generation db (db.removeChunk id generation chunk) := by
  apply onlyAt_foldl
  intro db e
  apply onlyAt_deleteRows
  intro r hr
  exact (Bool.and_eq_true _ _ ▸ hr).1

/-! ## What readers see -/

/-- Two tables that agree on where a list points and on the rows there show the same list. -/
theorem visible_congr {db db' : Db} {id : Nat} (hpointer : db'.pointer id = db.pointer id)
    (hrows : ∀ g, db.pointer id = some g → db'.rowsAt id g = db.rowsAt id g) : db'.visible id = db.visible id := by
  rw [visible, visible, hpointer]
  rcases hg : db.pointer id with _ | g
  · rfl
  · simp only [Option.map_some, ordered, hrows g hg]

/-- Rows under ascending orders are read in the order they lie in. -/
theorem ordered_eq {db : Db} {id generation : Nat} {rows : List Row} (hrows : db.rowsAt id generation = rows)
    (hsorted : rows.Pairwise fun a b => a.order ≤ b.order) : db.ordered id generation = rows := by
  rw [ordered, hrows]
  exact List.Pairwise.insertionSort_eq hsorted

end Db

end Throne.Database.IpLists
