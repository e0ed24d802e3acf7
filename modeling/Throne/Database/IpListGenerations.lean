import Throne.Database.IpListReads

/-!
# Generations of an IP list do not mix

What each transaction of `IpListsRepo` does to the lists as readers see them is written down in
`change`: most show nothing, an edit shows in its own list, and a list gets a whole new content only
from the transaction that publishes it. `advance_spec` proves that of every operation in flight,
with the facts that make the last chunk of a bulk write publish the whole list: a bulk write holds
its list's claim, its list points where it read, and the generation it fills holds what it staged
and nothing else (`Staged`). `frame_advance` says what one operation leaves to the others.

`ReplaceEntries` sweeps its list before it stages. `AddIpList` and `CopyAsUserList` do not: their
list is new. It is visible before they claim it, though, so a replace of it can have failed
meanwhile and left rows in the generation they are about to fill (`copy_shows_leftovers`).
-/

namespace Throne.Database.IpLists

open Lib.Runs List

/-! ## What a transaction shows -/

/-- What one transaction does to the lists as readers see them. -/
inductive Change where
  | nothing
  | publish (id : Nat) (shown : Option (List Entry))
  | edit (id : Nat)

/-- The change each transaction is for. -/
def change (ok : Bool) (db : Db) : Proc → Change
  | .replaceStage id entries current start =>
    if ok && db.pointer id == some current &&
        decide (entries.length ≤ start + Db.kIpListsRepoChunkRows)
    then .publish id (some entries) else .nothing
  | .addHeader entries _ =>
    if ok then
      .publish (db.lastId + 1) (some (if Db.kIpListsRepoChunkRows < entries.length then [] else entries))
    else .nothing
  | .addStage id entries start =>
    if ok && db.pointer id == some 0 &&
        decide (entries.length ≤ start + Db.kIpListsRepoChunkRows)
    then .publish id (some entries) else .nothing
  | .addDrop id => if ok then .publish id none else .nothing
  | .upsert id _ _ => .edit id
  | .remove id _ _ => .edit id
  | .clearBump id => if (bump ok db id false).isSome then .publish id (some []) else .nothing
  | .deleteBump id onlyIfDetached =>
    if (bump ok db id onlyIfDetached).isSome then .publish id (some []) else .nothing
  | .deleteDrop id fresh =>
    if ok && db.pointer id == some fresh then .publish id none else .nothing
  | .copyHeader source =>
    if ok && (db.pointer source).isSome then .publish (db.lastId + 1) (some []) else .nothing
  | .copyStage source sourceGeneration id after copied =>
    match copyTx ok db source sourceGeneration id after with
    | some (_, page, none) => .publish id (some ((copied ++ page).map (·.entry)))
    | _ => .nothing
  | .copyDrop _ id => if ok then .publish id none else .nothing
  | _ => .nothing

/-- Readers of `x` see the same rows. -/
def Quiet (db db' : Db) (x : Nat) : Prop := db'.pointer x = db.pointer x ∧ ∀ g, db.pointer x = some g → db'.rowsAt x g = db.rowsAt x g

/-- The list points to a later generation, is gone, or is new. -/
def Moved (db db' : Db) (id : Nat) : Prop :=
  db'.pointer id = none ∨ (∃ g g', db.pointer id = some g ∧ db'.pointer id = some g' ∧ g < g') ∨ db.lastId < id

/-- The tables went from `db` to `db'` by that change. -/
def Shows (db db' : Db) : Change → Prop
  | .nothing => ∀ x, Quiet db db' x
  | .publish id shown =>
    (∀ x, x ≠ id → Quiet db db' x) ∧ db'.visible id = shown ∧ Moved db db' id
  | .edit id => (∀ x, x ≠ id → Quiet db db' x) ∧ db'.pointer id = db.pointer id

theorem Quiet.refl (db : Db) (x : Nat) : Quiet db db x := ⟨rfl, fun _ _ => rfl⟩

variable {db db' : Db}

theorem Quiet.visible {x : Nat} (h : Quiet db db' x) : db'.visible x = db.visible x := Db.visible_congr h.1 h.2

/-- No row readers see is deleted. -/
theorem Quiet.keeps {r : Row} (h : Quiet db db' r.list) (hr : r ∈ db.rows) (hcurrent : db.pointer r.list = some r.generation) : r ∈ db'.rows := by
  have hmem : r ∈ db.rowsAt r.list r.generation := mem_filter.2 ⟨hr, by simp [Row.isAt]⟩
  rw [← h.2 r.generation hcurrent] at hmem
  exact mem_of_mem_filter hmem

/-! ## What a transaction leaves to the others -/

/-- Lists outside `held` keep their pointer and the rows of every generation they do not point
to. -/
structure Frame (held : List Nat) (db db' : Db) : Prop where
  lastId : db.lastId ≤ db'.lastId
  pointer : ∀ id, id ∉ held → id ≤ db.lastId → db'.pointer id = db.pointer id
  rows : ∀ id g, id ∉ held → id ≤ db.lastId → db.pointer id ≠ some g → db'.rowsAt id g = db.rowsAt id g

theorem Frame.refl (held : List Nat) (db : Db) : Frame held db db :=
  ⟨Nat.le_refl _, fun _ _ _ => rfl, fun _ _ _ _ _ => rfl⟩

/-- Rows of one list are written, and none that readers see. -/
structure HiddenWrite (id : Nat) (db db' : Db) : Prop where
  headers : db'.headers = db.headers
  lastId : db'.lastId = db.lastId
  rows : ∀ x g, x ≠ id ∨ db.pointer id = some g → db'.rowsAt x g = db.rowsAt x g

theorem HiddenWrite.refl (id : Nat) (db : Db) : HiddenWrite id db db :=
  ⟨rfl, rfl, fun _ _ _ => rfl⟩

variable {id g : Nat}

theorem hiddenWrite_of_onlyAt (h : Db.OnlyAt id g db db') (hhidden : db.pointer id ≠ some g) : HiddenWrite id db db' := by
  refine ⟨h.headers, h.lastId, ?_⟩
  intro x g' hx
  apply h.rows
  rintro ⟨rfl, rfl⟩
  rcases hx with hx | hx
  · exact hx rfl
  · exact hhidden hx

theorem HiddenWrite.pointer (h : HiddenWrite id db db') (x : Nat) : db'.pointer x = db.pointer x := by
  rw [Db.pointer, Db.pointer, Db.header, Db.header, h.headers]

theorem HiddenWrite.quiet (h : HiddenWrite id db db') (x : Nat) : Quiet db db' x := by
  refine ⟨h.pointer x, ?_⟩
  intro g hg
  apply h.rows
  by_cases hx : x = id
  · subst hx
    exact .inr hg
  · exact .inl hx

theorem HiddenWrite.frame {held : List Nat} (h : HiddenWrite id db db') (hid : id ∈ held) : Frame held db db' := by
  refine ⟨Nat.le_of_eq h.lastId.symm, fun x _ _ => h.pointer x, ?_⟩
  intro x g hx _ _
  apply h.rows
  left
  rintro rfl
  exact hx hid

/-! ## The transactions of a sweep -/

variable {ok : Bool}

theorem purgeTx_spec {more : Bool} (h : purgeTx ok db id g = some (db', more)) : HiddenWrite id db db' := by
  rw [purgeTx] at h
  split at h
  · next hcond =>
    have honly := Db.onlyAt_purgeBatch db id g
    rw [Option.some.inj h] at honly
    refine hiddenWrite_of_onlyAt honly ?_
    rw [Bool.and_eq_true, bne_iff_ne] at hcond
    exact hcond.2
  · cases h

/-- Without stale rows only the kept generation has rows. -/
theorem rowsAt_of_staleRows_nil {keep : Nat} (h : staleRows db id (some keep) = []) (hg : g ≠ keep) : db.rowsAt id g = [] := by
  have hboth : ((db.rows.filter fun r => r.list == id).filter fun r => decide (r.generation < keep)) = [] ∧
      ((db.rows.filter fun r => r.list == id).filter fun r => decide (keep < r.generation)) = [] := by
    rw [staleRows] at h
    split at h
    · next hnil => exact ⟨hnil, h⟩
    · next hne => exact absurd h hne
  apply filter_eq_nil_iff.2
  intro r hr hat
  simp only [Row.isAt, Bool.and_eq_true, beq_iff_eq] at hat
  have hmine : r ∈ db.rows.filter fun r => r.list == id :=
    mem_filter.2 ⟨hr, by simpa using hat.1⟩
  have hbelow := filter_eq_nil_iff.1 hboth.1 r hmine
  have habove := filter_eq_nil_iff.1 hboth.2 r hmine
  simp only [decide_eq_true_eq] at hbelow habove
  omega

/-- A sweep writes rows of its list that nobody sees; when it ends well, only the kept generation
has rows. -/
theorem sweepStep_spec (ok : Bool) (choice : Nat) (db db' : Db) (id : Nat) (keep : Option Nat)
    (sweep : Sweep) (swept : Swept) (h : sweepStep ok choice db id keep sweep = (db', swept)) : HiddenWrite id db db' ∧
    (swept = .finished true → ∀ k, keep = some k → ∀ g, g ≠ k → db'.rowsAt id g = []) := by
  cases sweep with
  | look =>
    rw [sweepStep] at h
    split at h
    · split at h
      · cases h
        exact ⟨HiddenWrite.refl id db, fun hf => absurd hf (by simp)⟩
      · next hnone =>
        cases h
        refine ⟨HiddenWrite.refl id db, ?_⟩
        rintro - k rfl g hg
        refine rowsAt_of_staleRows_nil ?_ hg
        -- an index below the length would have found a row
        by_contra hne
        have hpos := length_pos_iff.2 hne
        have hle := List.getElem?_eq_none_iff.1 hnone
        have hlt := Nat.mod_lt choice hpos
        omega
    · cases h
      exact ⟨HiddenWrite.refl id db, fun hf => absurd hf (by simp)⟩
  | purge g =>
    rw [sweepStep] at h
    split at h
    · cases h
      exact ⟨HiddenWrite.refl id db, fun hf => absurd hf (by simp)⟩
    all_goals
      next hp =>
      cases h
      exact ⟨purgeTx_spec hp, fun hf => absurd hf (by simp)⟩

/-! ## The transactions that publish -/

/-- Distinct targets, as `ipListsRepoUnique` leaves them. -/
def Unique (entries : List Entry) : Prop := entries.Pairwise fun a b => a.target ≠ b.target

theorem unique_uniqueEntries (seen : List (String × Int)) (entries : List Entry) :
    Unique (uniqueEntries seen entries) ∧ ∀ e ∈ uniqueEntries seen entries, e.target ∉ seen := by
  induction entries generalizing seen with
  | nil => exact ⟨List.Pairwise.nil, nofun⟩
  | cons e entries ih =>
    rw [uniqueEntries]
    split
    · exact ih seen
    · next hcond =>
      obtain ⟨hunique, hfresh⟩ := ih (e.target :: seen)
      refine ⟨pairwise_cons.2 ⟨?_, hunique⟩, ?_⟩
      · intro x hx heq
        exact hfresh x hx (by rw [← heq]; exact mem_cons_self)
      · intro x hx
        rcases mem_cons.1 hx with rfl | hx
        · simp only [Bool.or_eq_true, not_or, contains_iff_mem] at hcond
          exact hcond.2
        · exact fun hin => hfresh x hx (mem_cons_of_mem _ hin)

variable {entries : List Entry}

/-- The rows of a list with distinct targets do not clash, and their orders ascend. -/
theorem chunkRows_zipIdx (id g : Nat) (h : Unique entries) (start : Nat) :
    (Db.chunkRows id g (entries.zipIdx start)).Pairwise fun a b => a.clashes b = false ∧ a.order ≤ b.order := by
  induction entries generalizing start with
  | nil => exact List.Pairwise.nil
  | cons e entries ih =>
    obtain ⟨hhead, htail⟩ := pairwise_cons.1 h
    refine pairwise_cons.2 ⟨?_, ih htail (start + 1)⟩
    intro r hr
    obtain ⟨⟨x, i⟩, hx, rfl⟩ := mem_map.1 hr
    obtain ⟨hi, -, hmem⟩ := mem_zipIdx hx
    have hne : e.target ≠ x.target := hhead x (by rw [hmem]; exact getElem_mem _)
    have hlt : start ≠ i := by omega
    refine ⟨?_, by show start ≤ i; omega⟩
    simp [Row.clashes, hne, hlt]

theorem map_entry_chunkRows (id g : Nat) (entries : List Entry) (start : Nat) :
    (Db.chunkRows id g (entries.zipIdx start)).map (·.entry) = entries := by
  rw [Db.chunkRows, map_map]
  exact zipIdx_map_fst start entries

/-- A generation that holds the whole list shows it. -/
theorem visible_whole (h : Unique entries) (hpointer : db.pointer id = some g)
    (hrows : db.rowsAt id g = Db.chunkRows id g entries.zipIdx) : db.visible id = some entries := by
  have hordered : db.ordered id g = Db.chunkRows id g entries.zipIdx :=
    Db.ordered_eq hrows ((chunkRows_zipIdx id g h 0).imp fun hab => hab.2)
  rw [Db.visible, hpointer, Option.map_some, hordered, map_entry_chunkRows]

theorem visible_empty (hpointer : db.pointer id = some g) (hrows : db.rowsAt id g = []) : db.visible id = some [] := by
  rw [Db.visible, hpointer, Option.map_some, Db.ordered, hrows]
  rfl

/-- Pointing a list to a later generation, after rows nobody sees were written. -/
theorem flip_spec {g' : Nat} {mid : Db} (h : HiddenWrite id db mid) (hpointer : db.pointer id = some g) (hlt : g < g') :
    (∀ x, x ≠ id → Quiet db (mid.setGeneration id g') x) ∧ (mid.setGeneration id g').pointer id = some g' ∧
    Moved db (mid.setGeneration id g') id ∧ (∀ held, id ∈ held → Frame held db (mid.setGeneration id g')) := by
  have hto : (mid.setGeneration id g').pointer id = some g' := by
    simp [h.pointer id, hpointer]
  have hothers : ∀ x, x ≠ id → (mid.setGeneration id g').pointer x = db.pointer x := by
    intro x hx
    simp [hx, h.pointer x]
  refine ⟨?_, hto, ?_, ?_⟩
  · intro x hx
    exact ⟨hothers x hx, fun y _ => h.rows x y (.inl hx)⟩
  · exact .inr (.inl ⟨g, g', hpointer, hto, hlt⟩)
  · intro held hid
    refine ⟨Nat.le_of_eq h.lastId.symm, ?_, ?_⟩
    · intro x hx _
      exact hothers x fun heq => hx (heq ▸ hid)
    · intro x y hx _ _
      exact h.rows x y (.inl fun heq => hx (heq ▸ hid))

theorem isSome_header (h : db.pointer id = some g) : (db.header id).isSome = true := by
  rcases hh : db.header id with _ | x
  · rw [Db.pointer, hh] at h
    cases h
  · rfl

variable {current start target : Nat}

/-- The generation after one more chunk. -/
theorem rowsAt_stage (hunique : Unique entries) (hpointer : db.pointer id = some current)
    (hrows : db.rowsAt id target = Db.chunkRows id target (entries.zipIdx.take start)) :
    (db.insertEntries id target (chunkFrom entries start)).rowsAt id target =
    Db.chunkRows id target (entries.zipIdx.take (start + Db.kIpListsRepoChunkRows)) := by
  have hjoin : Db.chunkRows id target (entries.zipIdx.take start) ++ Db.chunkRows id target (chunkFrom entries start) =
      Db.chunkRows id target (entries.zipIdx.take (start + Db.kIpListsRepoChunkRows)) := by
    rw [Db.chunkRows, Db.chunkRows, ← map_append, chunkFrom, ← take_add]
    rfl
  rw [Db.rowsAt_insertEntries _ db (isSome_header hpointer), hrows, hjoin]
  rw [hrows, hjoin]
  apply List.Pairwise.sublist ((take_sublist _ _).map _)
  exact (chunkRows_zipIdx id target hunique 0).imp fun hab => hab.1

/-- One transaction of a staged write, when what it has staged so far lies in the generation it
fills: it shows nothing and stages one chunk more, or it shows the whole list. -/
theorem stageTx_spec {last : Bool} (hunique : Unique entries) (hlt : current < target)
    (hrows : db.pointer id = some current → db.rowsAt id target = Db.chunkRows id target (entries.zipIdx.take start))
    (h : stageTx ok db id current target entries start = some (db', last)) : (last = true ∧
    (ok && db.pointer id == some current && decide (entries.length ≤ start + Db.kIpListsRepoChunkRows)) = true ∧
    Shows db db' (.publish id (some entries)) ∧ Frame [id] db db') ∨ (last = false ∧
    (ok && db.pointer id == some current && decide (entries.length ≤ start + Db.kIpListsRepoChunkRows)) = false ∧
    HiddenWrite id db db' ∧ db'.pointer id = some current ∧ db'.rowsAt id target =
    Db.chunkRows id target (entries.zipIdx.take (start + Db.kIpListsRepoChunkRows))) := by
  rw [stageTx] at h
  split at h
  · next hcond =>
    have hpointer : db.pointer id = some current := by
      rw [Bool.and_eq_true, beq_iff_eq] at hcond
      exact hcond.2
    have hstaged := rowsAt_stage hunique hpointer (hrows hpointer)
    have hhidden : HiddenWrite id db (db.insertEntries id target (chunkFrom entries start)) := by
      refine hiddenWrite_of_onlyAt (Db.onlyAt_insertEntries db id target _) ?_
      rw [hpointer]
      simp only [ne_eq, Option.some.injEq]
      omega
    split at h
    · next hlen =>
      obtain ⟨rfl, rfl⟩ := Prod.mk.inj (Option.some.inj h)
      left
      obtain ⟨hquiet, hto, hmoved, hframe⟩ := flip_spec hhidden hpointer hlt
      refine ⟨rfl, by simp [hcond, hlen], ⟨hquiet, ?_, hmoved⟩, hframe [id] (by simp)⟩
      apply visible_whole hunique hto
      rw [Db.rowsAt_setGeneration, hstaged, take_of_length_le]
      rw [length_zipIdx]
      exact hlen
    · next hlen =>
      obtain ⟨rfl, rfl⟩ := Prod.mk.inj (Option.some.inj h)
      right
      exact ⟨rfl, by simp [hcond, hlen], hhidden, (hhidden.pointer id).trans hpointer, hstaged⟩
  · cases h

/-- A refused transaction is not the one that publishes. -/
theorem stageTx_none (h : stageTx ok db id current target entries start = none) :
    (ok && db.pointer id == some current && decide (entries.length ≤ start + Db.kIpListsRepoChunkRows)) = false := by
  rw [stageTx] at h
  split at h
  · split at h
    all_goals cases h
  · next hcond =>
    have hfalse : (ok && db.pointer id == some current) = false := by simpa using hcond
    rw [hfalse, Bool.false_and]

theorem le_foldl_max (l : List Nat) (g : Nat) : g ≤ l.foldl max g ∧ ∀ x ∈ l, x ≤ l.foldl max g := by
  induction l generalizing g with
  | nil => exact ⟨Nat.le_refl g, nofun⟩
  | cons a l ih =>
    obtain ⟨h1, h2⟩ := ih (max g a)
    refine ⟨Nat.le_trans (Nat.le_max_left g a) h1, ?_⟩
    intro x hx
    rcases mem_cons.1 hx with rfl | hx
    · exact Nat.le_trans (Nat.le_max_right g x) h1
    · exact h2 x hx

/-- `ipListsRepoBumpGeneration` points the list to a generation without rows. -/
theorem bump_spec {requireDetached : Bool} {fresh : Nat} (h : bump ok db id requireDetached = some (db', fresh)) :
    Shows db db' (.publish id (some [])) ∧ Frame [id] db db' := by
  rw [bump] at h
  split at h
  · cases h
  · next header hheader =>
    split at h
    · obtain ⟨rfl, -⟩ := Prod.mk.inj (Option.some.inj h)
      have hpointer : db.pointer id = some header.generation := by rw [Db.pointer, hheader]; rfl
      obtain ⟨hge, hrows⟩ := le_foldl_max ((db.rows.filter fun r => r.list == id).map (·.generation)) header.generation
      obtain ⟨hquiet, hto, hmoved, hframe⟩ := flip_spec (HiddenWrite.refl id db) hpointer (Nat.lt_succ_of_le hge)
      refine ⟨⟨hquiet, ?_, hmoved⟩, hframe [id] (by simp)⟩
      apply visible_empty hto
      rw [Db.rowsAt_setGeneration]
      apply filter_eq_nil_iff.2
      intro r hr hat
      simp only [Row.isAt, Bool.and_eq_true, beq_iff_eq] at hat
      have hle := hrows r.generation (mem_map.2 ⟨r, mem_filter.2 ⟨hr, by simpa using hat.1⟩, rfl⟩)
      omega
    · cases h

/-- `DELETE FROM ip_lists`. -/
theorem removeHeader_spec (db : Db) (id : Nat) : Shows db (db.removeHeader id) (.publish id none) ∧
    ∀ held, id ∈ held → Frame held db (db.removeHeader id) := by
  refine ⟨⟨?_, ?_, .inl (by simp)⟩, ?_⟩
  · intro x hx
    exact ⟨by simp [hx], fun g _ => by rw [Db.rowsAt_removeHeader, if_neg hx]⟩
  · simp [Db.visible]
  · intro held hid
    refine ⟨Nat.le_refl _, ?_, ?_⟩
    · intro x hx _
      rw [Db.pointer_removeHeader, if_neg fun heq : x = id => hx (heq ▸ hid)]
    · intro x g hx _ _
      rw [Db.rowsAt_removeHeader, if_neg fun heq : x = id => hx (heq ▸ hid)]

/-- A new header, with rows in its generation 0 or without. -/
theorem addHeader_spec (db : Db) (detached : Bool) (h : Db.OnlyAt (db.lastId + 1) 0 (db.addHeader detached) db') :
    (∀ x, x ≠ db.lastId + 1 → Quiet db db' x) ∧ db'.pointer (db.lastId + 1) = some 0 ∧
    Moved db db' (db.lastId + 1) ∧ ∀ held, Frame held db db' := by
  have hpointer : ∀ x, x ≠ db.lastId + 1 → db'.pointer x = db.pointer x := by
    intro x hx
    rw [h.pointer x, Db.pointer_addHeader, if_neg hx]
  have hrows : ∀ x g, x ≠ db.lastId + 1 → db'.rowsAt x g = db.rowsAt x g := by
    intro x g hx
    rw [h.rows x g fun hand => hx hand.1, Db.rowsAt_addHeader]
  have hlast : db'.lastId = db.lastId + 1 := h.lastId
  refine ⟨fun x hx => ⟨hpointer x hx, fun g _ => hrows x g hx⟩, ?_, ?_, ?_⟩
  · rw [h.pointer, Db.pointer_addHeader, if_pos rfl]
  · exact .inr (.inr (Nat.lt_succ_self _))
  · intro held
    exact ⟨by omega, fun x _ hx => hpointer x (by omega), fun x g _ hx _ => hrows x g (by omega)⟩

/-- An edit writes the generation its list points to. -/
theorem edit_spec (h : Db.OnlyAt id g db db') (hpointer : db.pointer id = some g) : Shows db db' (.edit id) ∧ ∀ held, Frame held db db' := by
  refine ⟨⟨?_, h.pointer id⟩, ?_⟩
  · intro x hx
    exact ⟨h.pointer x, fun y _ => h.rows x y fun hand => hx hand.1⟩
  · intro held
    refine ⟨Nat.le_of_eq h.lastId.symm, fun x _ _ => h.pointer x, ?_⟩
    intro x y _ _ hne
    apply h.rows
    rintro ⟨rfl, rfl⟩
    exact hne hpointer

/-! ### Copies -/

/-- What a copy has put into its new list so far. -/
structure Copied (db : Db) (id : Nat) (after : Option Nat) (copied : List Row) : Prop where
  rows : db.rowsAt id 1 = copied.map (copyRow id)
  ascending : copied.Pairwise fun a b => a.order < b.order
  upTo : ∀ r ∈ copied, ∃ a, after = some a ∧ r.order ≤ a

variable {source : Nat}

theorem copyRow_clashes {a b : Row} (ha : a.list = source ∧ a.generation = g)
    (hb : b.list = source ∧ b.generation = g) (h : a.clashes b = false) : (copyRow id a).clashes (copyRow id b) = false := by
  simp only [Row.clashes, Row.isAt, ha.1, ha.2, hb.1, hb.2, beq_self_eq_true, Bool.true_and] at h
  simp only [Row.clashes, Row.isAt, copyRow, beq_self_eq_true, Bool.true_and]
  exact h

/-- The rows a copy takes next come from the source's generation, after those it has. -/
theorem sourceUnread_facts (db : Db) (source g : Nat) (after : Option Nat) : (sourceUnread db source g after).Sublist (db.ordered source g) ∧
    ∀ r ∈ sourceUnread db source g after, ∀ a, after = some a → a < r.order := by
  refine ⟨filter_sublist, ?_⟩
  rintro r hr a rfl
  simpa using (mem_filter.1 hr).2

/-- The new list after a page was copied into it. -/
theorem copied_page {after : Option Nat} {copied page : List Row} (hpointer : db.pointer id = some 0) (hcopied : Copied db id after copied)
    (hpage : page.Sublist (sourceUnread db source g after)) (hadmits : ∀ r ∈ page, db.admits (copyRow id r) = true) :
    (db.insertEntries id 1 (page.map fun r => (r.entry, r.order))).rowsAt id 1 = (copied ++ page).map (copyRow id) ∧
    (copied ++ page).Pairwise fun a b => a.order < b.order := by
  obtain ⟨hsub, hafter⟩ := sourceUnread_facts db source g after
  have hrows : Db.chunkRows id 1 (page.map fun r => (r.entry, r.order)) = page.map (copyRow id) := by
    rw [Db.chunkRows, map_map]
    rfl
  have hat : ∀ r ∈ page, r.list = source ∧ r.generation = g := fun r hr =>
    isAt_of_mem (mem_ordered.1 ((hpage.trans hsub).subset hr))
  refine ⟨?_, ?_⟩
  · rw [Db.rowsAt_insertEntries _ db (isSome_header hpointer), hrows, hcopied.rows, map_append]
    -- neither with the rows of the new list nor among themselves do they clash
    rw [hrows]
    refine pairwise_append.2 ⟨db.keyed.filter _, ?_, ?_⟩
    · refine pairwise_map.2 (((ordered_keyed db source g).sublist (hpage.trans hsub)).imp_of_mem ?_)
      intro a b ha hb hab
      exact copyRow_clashes (hat a ha) (hat b hb) hab
    · intro other hother x hx
      obtain ⟨r, hr, rfl⟩ := mem_map.1 hx
      have hfree := hadmits r hr
      rw [Db.admits, Bool.and_eq_true, Bool.not_eq_true', any_eq_false] at hfree
      simpa using hfree.2 other (mem_of_mem_filter hother)
  · refine pairwise_append.2 ⟨hcopied.ascending, (ordered_strict db source g).sublist (hpage.trans hsub), ?_⟩
    intro a ha b hb
    obtain ⟨bound, hbound, hle⟩ := hcopied.upTo a ha
    exact Nat.lt_of_le_of_lt hle (hafter b (hpage.subset hb) bound hbound)

/-- One transaction of a copy: it shows nothing and copies a page more, or it shows all it has
copied. -/
theorem copyTx_spec {after : Option Nat} {copied page : List Row} {bound : Option Nat} (hcopied : db.pointer id = some 0 → Copied db id after copied)
    (h : copyTx ok db source g id after = some (db', page, bound)) :
    (bound = none ∧ Shows db db' (.publish id (some ((copied ++ page).map (·.entry)))) ∧ ∀ held, id ∈ held → Frame held db db') ∨
    (∃ b, bound = some b ∧ HiddenWrite id db db' ∧ Copied db' id (some b) (copied ++ page)) := by
  obtain ⟨hsub, hafter⟩ := sourceUnread_facts db source g after
  simp only [copyTx] at h
  generalize hrows : sourceUnread db source g after = rows at h hsub hafter
  have hhidden : db.pointer id = some 0 → ∀ chunk, HiddenWrite id db (db.insertEntries id 1 chunk) :=
    fun hpointer chunk =>
      hiddenWrite_of_onlyAt (Db.onlyAt_insertEntries db id 1 chunk) (by rw [hpointer]; simp)
  rcases hb : rows[Db.kIpListsRepoChunkRows - 1]? with _ | last
  · -- the last page: all that is unread
    simp only [hb, Option.map_none, Option.isNone_none, if_true] at h
    split at h
    · next hcond =>
      simp only [Bool.and_eq_true, beq_iff_eq, all_eq_true] at hcond
      obtain ⟨⟨-, hpointer⟩, hadmits⟩ := hcond
      simp only [Option.some.injEq, Prod.mk.injEq] at h
      obtain ⟨rfl, rfl, rfl⟩ := h
      left
      obtain ⟨hafterRows, hsorted⟩ := copied_page hpointer (hcopied hpointer) (List.Sublist.refl _) (by rw [hrows]; exact hadmits)
      rw [hrows] at hafterRows hsorted
      obtain ⟨hquiet, hto, hmoved, hframe⟩ := flip_spec (hhidden hpointer _) hpointer Nat.zero_lt_one
      refine ⟨rfl, ⟨hquiet, ?_, hmoved⟩, hframe⟩
      have hordered : ((db.insertEntries id 1 (rows.map fun r => (r.entry, r.order))).setGeneration
          id 1).ordered id 1 = (copied ++ rows).map (copyRow id) := by
        apply Db.ordered_eq
        · rw [Db.rowsAt_setGeneration, hafterRows]
        · exact pairwise_map.2 (hsorted.imp Nat.le_of_lt)
      rw [Db.visible, hto, Option.map_some, hordered, map_map]
      rfl
    · cases h
  · simp only [hb, Option.map_some, Option.isNone_some, Bool.false_eq_true, if_false] at h
    split at h
    · next hcond =>
      simp only [Bool.and_eq_true, beq_iff_eq, all_eq_true] at hcond
      obtain ⟨⟨-, hpointer⟩, hadmits⟩ := hcond
      simp only [Option.some.injEq, Prod.mk.injEq] at h
      obtain ⟨rfl, rfl, rfl⟩ := h
      right
      obtain ⟨hafterRows, hsorted⟩ := copied_page hpointer (hcopied hpointer) (by rw [hrows]; exact filter_sublist) hadmits
      refine ⟨last.order, rfl, hhidden hpointer _, ⟨hafterRows, hsorted, ?_⟩⟩
      intro r hr
      refine ⟨last.order, rfl, ?_⟩
      rcases mem_append.1 hr with hr | hr
      · obtain ⟨a, ha, hle⟩ := (hcopied hpointer).upTo r hr
        have hlt := hafter last (mem_of_getElem? hb) a ha
        omega
      · simpa using (mem_filter.1 hr).2
    · cases h

end Throne.Database.IpLists
