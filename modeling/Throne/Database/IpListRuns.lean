import Throne.Database.IpListGenerations
import Mathlib.Data.List.Perm.Basic

/-!
# Runs of the IP list repository

Any number of operations in flight, in any order of their transactions, with failures and restarts.
`inv_step` carries the facts about the staged generations and the claims through one step, and with
them every step shows what `change` says (`shows_step`). A read is answered from one generation
(`read_answered`): its list pointed to that generation at every page, and if nobody edited the list
between the pages, the answer is the window of the list that was asked for.
-/

namespace Throne.Database.IpLists

open Lib.Runs List

section
-- The equations are made once, for all proofs.
attribute [local simp] holds change advance
end

/-! ## One operation -/

/-- What holds between the transactions of an operation. -/
def Staged (db : Db) : Proc → Prop
  | .replaceClaim _ entries | .replaceRead _ entries | .addHeader entries _ => Unique entries
  | .addClaim id entries => Unique entries ∧ id ≤ db.lastId
  | .replaceSweep id entries current _ => Unique entries ∧ db.pointer id = some current
  | .replaceStage id entries current start =>
    Unique entries ∧ db.pointer id = some current ∧ db.rowsAt id (current + 1) = Db.chunkRows id (current + 1) (entries.zipIdx.take start)
  | .addStage id entries start =>
    Unique entries ∧ id ≤ db.lastId ∧ (db.pointer id = some 0 → db.rowsAt id 1 = Db.chunkRows id 1 (entries.zipIdx.take start))
  | .copyTarget _ _ id => id ≤ db.lastId
  | .copyStage _ _ id after copied =>
    id ≤ db.lastId ∧ (db.pointer id = some 0 → Copied db id after copied)
  | .page _ _ _ _ c => 0 < pageSize c
  | _ => True

/-- The list an operation is about to fill, having created it, holds no row of the generation it
fills. -/
def FillsEmpty (db : Db) (claimed : List Nat) : Proc → Prop
  | .addClaim id _ | .copyTarget _ _ id =>
    id ∉ claimed → db.pointer id = some 0 → db.rowsAt id 1 = []
  | _ => True

variable {db db' : Db}

/-- The staged facts of an operation survive the transactions of another one. -/
theorem staged_frame {held : List Nat} (h : Frame held db db') (p : Proc)
    (hapart : ∀ id ∈ holds p, id ∉ held) (hstaged : Staged db p) : Staged db' p := by
  cases p with
  | addClaim id entries => exact ⟨hstaged.1, Nat.le_trans hstaged.2 h.lastId⟩
  | replaceSweep id entries current sweep =>
    obtain ⟨hunique, hpointer⟩ := hstaged
    refine ⟨hunique, ?_⟩
    rw [h.pointer id (hapart id (by simp [holds])) (Db.le_lastId_of_pointer hpointer)]
    exact hpointer
  | replaceStage id entries current start =>
    obtain ⟨hunique, hpointer, hrows⟩ := hstaged
    have hid := hapart id (by simp [holds])
    have hle := Db.le_lastId_of_pointer hpointer
    refine ⟨hunique, ?_, ?_⟩
    · rw [h.pointer id hid hle]
      exact hpointer
    · rw [h.rows id (current + 1) hid hle (by rw [hpointer]; simp)]
      exact hrows
  | addStage id entries start =>
    obtain ⟨hunique, hle, hrows⟩ := hstaged
    have hid := hapart id (by simp [holds])
    refine ⟨hunique, Nat.le_trans hle h.lastId, ?_⟩
    intro hpointer
    rw [h.pointer id hid hle] at hpointer
    rw [h.rows id 1 hid hle (by rw [hpointer]; simp)]
    exact hrows hpointer
  | copyTarget source g id => exact Nat.le_trans hstaged h.lastId
  | copyStage source g id after copied =>
    obtain ⟨hle, hcopied⟩ := hstaged
    have hid := hapart id (by simp [holds])
    refine ⟨Nat.le_trans hle h.lastId, ?_⟩
    intro hpointer
    rw [h.pointer id hid hle] at hpointer
    obtain ⟨hrows, hascending, hupTo⟩ := hcopied hpointer
    refine ⟨?_, hascending, hupTo⟩
    rw [h.rows id 1 hid hle (by rw [hpointer]; simp)]
    exact hrows
  | _ => exact hstaged

/-- One transaction of an operation: it shows its change, leaves the lists others have claimed
alone, and the operation goes on with its staged facts. -/
def Spec (db : Db) (p : Proc) (c : Change) (after : Db × List Nat × Proc) : Prop :=
  Shows db after.1 c ∧ Frame (holds p) db after.1 ∧ Staged after.1 after.2.2

variable {claimed : List Nat} {p p' : Proc}

theorem spec_same (h : Staged db p') : Spec db p .nothing (db, claimed, p') :=
  ⟨fun x => Quiet.refl db x, Frame.refl _ db, h⟩

variable {id : Nat}

theorem spec_hidden (hwrite : HiddenWrite id db db') (hid : id ∈ holds p) (h : Staged db' p') : Spec db p .nothing (db', claimed, p') :=
  ⟨hwrite.quiet, hwrite.frame hid, h⟩

theorem spec_edit {g : Nat} (h : Db.OnlyAt id g db db') (hpointer : db.pointer id = some g) (hstaged : Staged db' p') :
    Spec db p (.edit id) (db', claimed, p') :=
  ⟨(edit_spec h hpointer).1, (edit_spec h hpointer).2 _, hstaged⟩

theorem spec_edit_same (id : Nat) (h : Staged db p') : Spec db p (.edit id) (db, claimed, p') :=
  ⟨⟨fun x _ => Quiet.refl db x, rfl⟩, Frame.refl _ db, h⟩

theorem spec_bump {ok requireDetached : Bool} {fresh : Nat} (h : bump ok db id requireDetached = some (db', fresh))
    (hholds : holds p = [id]) (hstaged : Staged db' p') : Spec db p (.publish id (some [])) (db', claimed, p') := by
  obtain ⟨hshows, hframe⟩ := bump_spec h
  exact ⟨hshows, hholds ▸ hframe, hstaged⟩

theorem spec_drop (hid : id ∈ holds p) (hstaged : Staged (db.removeHeader id) p') : Spec db p (.publish id none) (db.removeHeader id, claimed, p') :=
  ⟨(removeHeader_spec db id).1, (removeHeader_spec db id).2 _ hid, hstaged⟩

/-- The transactions of `ReplaceEntries`. -/
theorem replace_spec (ok : Bool) (choice : Nat) (db : Db) (claimed : List Nat) (id : Nat)
    (entries : List Entry) (current : Nat) : (∀ sweep, Staged db (.replaceSweep id entries current sweep) →
    Spec db (.replaceSweep id entries current sweep) .nothing (advance ok choice db claimed (.replaceSweep id entries current sweep))) ∧
    (∀ start, Staged db (.replaceStage id entries current start) → Spec db (.replaceStage id entries current start)
    (change ok db (.replaceStage id entries current start)) (advance ok choice db claimed (.replaceStage id entries current start))) := by
  refine ⟨?_, ?_⟩
  · rintro sweep ⟨hunique, hpointer⟩
    rcases hs : sweepStep ok choice db id (some current) sweep with ⟨db', swept⟩
    obtain ⟨hwrite, hclean⟩ := sweepStep_spec ok choice db db' id _ sweep swept hs
    have hpointer' : db'.pointer id = some current := (hwrite.pointer id).trans hpointer
    have hid : id ∈ holds (.replaceSweep id entries current sweep) := by simp [holds]
    simp only [advance, hs]
    rcases swept with sweep' | ok'
    · exact spec_hidden hwrite hid ⟨hunique, hpointer'⟩
    · cases ok' with
      | true =>
        refine spec_hidden hwrite hid ⟨hunique, hpointer', ?_⟩
        rw [hclean rfl current rfl (current + 1) (by omega)]
        rfl
      | false => exact spec_hidden hwrite hid trivial
  · rintro start ⟨hunique, hpointer, hrows⟩
    rcases hs : stageTx ok db id current (current + 1) entries start with _ | ⟨db', last⟩
    · simp only [advance, hs, change, stageTx_none hs, Bool.false_eq_true, if_false]
      exact spec_same trivial
    · rcases stageTx_spec hunique (Nat.lt_succ_self current) (fun _ => hrows) hs with
        ⟨rfl, hcond, hshows, hframe⟩ | ⟨rfl, hcond, hwrite, hpointer', hrows'⟩
      · simp only [advance, hs, change, hcond, if_true]
        exact ⟨hshows, hframe, trivial⟩
      · simp only [advance, hs, change, hcond, Bool.false_eq_true, if_false]
        exact spec_hidden hwrite (by simp [holds]) ⟨hunique, hpointer', hrows'⟩

/-- The transactions of `AddIpList`. -/
theorem add_spec (ok : Bool) (choice : Nat) (db : Db) (claimed : List Nat) (entries : List Entry) :
    (∀ detached, Staged db (.addHeader entries detached) → Spec db (.addHeader entries detached) (change ok db (.addHeader entries detached))
    (advance ok choice db claimed (.addHeader entries detached))) ∧ (∀ id start, Staged db (.addStage id entries start) →
    Spec db (.addStage id entries start) (change ok db (.addStage id entries start))
    (advance ok choice db claimed (.addStage id entries start))) := by
  refine ⟨?_, ?_⟩
  · intro detached hunique
    cases ok with
    | false =>
      simp only [advance, change, Bool.false_eq_true, if_false]
      exact spec_same trivial
    | true =>
      simp only [advance, change, if_true]
      split
      · -- the entries are staged later
        obtain ⟨hquiet, hto, hmoved, hframe⟩ := addHeader_spec db detached Db.OnlyAt.refl
        refine ⟨⟨hquiet, ?_, hmoved⟩, hframe _, hunique, Nat.le_refl _⟩
        apply visible_empty hto
        exact Db.rowsAt_new db 0
      · obtain ⟨hquiet, hto, hmoved, hframe⟩ := addHeader_spec db detached
          (Db.onlyAt_insertEntries (db.addHeader detached) (db.lastId + 1) 0 entries.zipIdx)
        refine ⟨⟨hquiet, ?_, hmoved⟩, hframe _, trivial⟩
        have hnew : (db.addHeader detached).rowsAt (db.lastId + 1) 0 = [] := Db.rowsAt_new db 0
        have hheader : ((db.addHeader detached).header (db.lastId + 1)).isSome = true :=
          isSome_header (g := 0) (by simp)
        apply visible_whole hunique hto
        rw [Db.rowsAt_insertEntries entries.zipIdx (db.addHeader detached) hheader, hnew, nil_append]
        rw [hnew, nil_append]
        exact (chunkRows_zipIdx _ _ hunique 0).imp fun hab => hab.1
  · rintro id start ⟨hunique, hle, hrows⟩
    rcases hs : stageTx ok db id 0 1 entries start with _ | ⟨db', last⟩
    · simp only [advance, hs, change, stageTx_none hs, Bool.false_eq_true, if_false]
      exact spec_same trivial
    · rcases stageTx_spec hunique Nat.zero_lt_one hrows hs with
        ⟨rfl, hcond, hshows, hframe⟩ | ⟨rfl, hcond, hwrite, -, hrows'⟩
      · simp only [advance, hs, change, hcond, if_true]
        exact ⟨hshows, hframe, trivial⟩
      · simp only [advance, hs, change, hcond, Bool.false_eq_true, if_false]
        exact spec_hidden hwrite (by simp [holds]) ⟨hunique, hwrite.lastId ▸ hle, fun _ => hrows'⟩

/-- The transactions of `CopyAsUserList`. -/
theorem copy_spec (ok : Bool) (choice : Nat) (db : Db) (claimed : List Nat) (source : Nat) :
    Spec db (.copyHeader source) (change ok db (.copyHeader source)) (advance ok choice db claimed (.copyHeader source)) ∧
    (∀ g id after copied, Staged db (.copyStage source g id after copied) →
    Spec db (.copyStage source g id after copied) (change ok db (.copyStage source g id after copied))
    (advance ok choice db claimed (.copyStage source g id after copied))) := by
  refine ⟨?_, ?_⟩
  · cases ok with
    | false =>
      simp only [advance, change, Bool.false_and, Bool.false_eq_true, if_false]
      exact spec_same trivial
    | true =>
      simp only [advance, change, Bool.true_and, if_true]
      rcases db.pointer source with _ | g
      · simp only [Option.isSome_none, Bool.false_eq_true, if_false]
        exact spec_same trivial
      · simp only [Option.isSome_some, if_true]
        obtain ⟨hquiet, hto, hmoved, hframe⟩ := addHeader_spec db false Db.OnlyAt.refl
        refine ⟨⟨hquiet, ?_, hmoved⟩, hframe _, Nat.le_refl _⟩
        apply visible_empty hto
        exact Db.rowsAt_new db 0
  · rintro g id after copied ⟨hle, hcopied⟩
    rcases hs : copyTx ok db source g id after with _ | ⟨db', page, bound⟩
    · simp only [advance, hs, change]
      exact spec_same trivial
    · rcases copyTx_spec hcopied hs with ⟨rfl, hshows, hframe⟩ | ⟨b, rfl, hwrite, hcopied'⟩
      · simp only [advance, hs, change]
        exact ⟨hshows, hframe _ (by simp [holds]), trivial⟩
      · simp only [advance, hs, change]
        exact spec_hidden hwrite (by simp [holds]) ⟨hwrite.lastId ▸ hle, fun _ => hcopied'⟩

/-- The first page of a read with a limit other than 0. -/
theorem pageSize_start {limit : Option Nat} (h : ¬ (limit == some 0) = true) : 0 < pageSize ⟨limit, none, []⟩ := by
  have hchunk := Db.kIpListsRepoChunkRows_pos
  rcases limit with _ | n
  · exact hchunk
  · have hn : n ≠ 0 := by
      rintro rfl
      exact h rfl
    show 0 < min n Db.kIpListsRepoChunkRows
    omega

/-- The transactions of `UpsertEntries` and `RemoveEntries`. -/
theorem edits_spec (ok : Bool) (choice : Nat) (db : Db) (claimed : List Nat) (id : Nat)
    (entries : List Entry) (pinned : Option Nat) : Spec db (.upsert id entries pinned) (.edit id)
    (advance ok choice db claimed (.upsert id entries pinned)) ∧ Spec db (.remove id entries pinned) (.edit id)
    (advance ok choice db claimed (.remove id entries pinned)) := by
  cases ok with
  | false => exact ⟨spec_edit_same id trivial, spec_edit_same id trivial⟩
  | true =>
    rcases hpointer : db.pointer id with _ | g
    · simp only [advance, hpointer, if_true]
      exact ⟨spec_edit_same id trivial, spec_edit_same id trivial⟩
    · simp only [advance, hpointer, if_true]
      refine ⟨?_, ?_⟩
      · split
        · exact spec_edit_same id trivial
        · split
          all_goals exact spec_edit (Db.onlyAt_upsertChunk db id g _) hpointer trivial
      · split
        · exact spec_edit_same id trivial
        · split
          all_goals exact spec_edit (Db.onlyAt_removeChunk db id g _) hpointer trivial

/-- Every transaction of every operation shows its change and nothing else. -/
theorem advance_spec (ok : Bool) (choice : Nat) (db : Db) (claimed : List Nat) (p : Proc)
    (hstaged : Staged db p) (hfills : FillsEmpty db claimed p) : Spec db p (change ok db p) (advance ok choice db claimed p) := by
  cases p with
  | replaceClaim id entries =>
    simp only [advance, change]
    split <;> exact spec_same hstaged
  | replaceRead id entries =>
    simp only [advance, change]
    split
    · exact spec_same trivial
    · next current hcurrent =>
      refine spec_same ⟨hstaged, ?_⟩
      cases ok with
      | true => exact hcurrent
      | false => cases hcurrent
  | replaceSweep id entries current sweep =>
    exact (replace_spec ok choice db claimed id entries current).1 sweep hstaged
  | replaceStage id entries current start =>
    exact (replace_spec ok choice db claimed id entries current).2 start hstaged
  | replacePurge id g =>
    simp only [advance, change]
    rcases hp : purgeTx ok db id g with _ | ⟨db', more⟩
    · exact spec_same trivial
    · have hwrite := purgeTx_spec hp
      cases more with
      | true | false => exact spec_hidden hwrite (by simp [holds]) trivial
  | addHeader entries detached => exact (add_spec ok choice db claimed entries).1 detached hstaged
  | addClaim id entries =>
    simp only [advance, change]
    split
    · exact spec_same hstaged
    · next hfree =>
      refine spec_same ⟨hstaged.1, hstaged.2, ?_⟩
      intro hpointer
      rw [hfills (by simpa using hfree) hpointer]
      rfl
  | addStage id entries start => exact (add_spec ok choice db claimed entries).2 id start hstaged
  | addDiscard id sweep | copyDiscard source id sweep =>
    rcases hs : sweepStep ok choice db id none sweep with ⟨db', swept⟩
    have hwrite := (sweepStep_spec ok choice db db' id _ sweep swept hs).1
    simp only [advance, change, hs]
    cases swept with
    | going sweep' | finished ok' => exact spec_hidden hwrite (by simp [holds]) trivial
  | addDrop id | copyDrop source id =>
    cases ok with
    | true => exact spec_drop (by simp [holds]) trivial
    | false => exact spec_same trivial
  | upsert id entries pinned => exact (edits_spec ok choice db claimed id entries pinned).1
  | remove id entries pinned => exact (edits_spec ok choice db claimed id entries pinned).2
  | clearClaim id | deleteClaim id onlyIfDetached | copyClaim source | held id offset limit =>
    simp only [advance, change]
    split <;> exact spec_same trivial
  | clearBump id =>
    rcases hb : bump ok db id false with _ | ⟨db', fresh⟩
    · simp only [advance, change, hb]
      exact spec_same trivial
    · simp only [advance, change, hb]
      exact spec_bump hb rfl trivial
  | clearSweep id keep sweep =>
    rcases hs : sweepStep ok choice db id (some keep) sweep with ⟨db', swept⟩
    have hwrite := (sweepStep_spec ok choice db db' id _ sweep swept hs).1
    simp only [advance, change, hs]
    cases swept with
    | going sweep' | finished ok' => exact spec_hidden hwrite (by simp [holds]) trivial
  | deleteBump id onlyIfDetached =>
    rcases hb : bump ok db id onlyIfDetached with _ | ⟨db', fresh⟩
    · simp only [advance, change, hb]
      exact spec_same trivial
    · simp only [advance, change, hb]
      exact spec_bump hb rfl trivial
  | deleteSweep id fresh sweep =>
    rcases hs : sweepStep ok choice db id (some fresh) sweep with ⟨db', swept⟩
    have hwrite := (sweepStep_spec ok choice db db' id _ sweep swept hs).1
    simp only [advance, change, hs]
    cases swept with
    | going sweep' => exact spec_hidden hwrite (by simp [holds]) trivial
    | finished ok' =>
      cases ok' with
      | true | false => exact spec_hidden hwrite (by simp [holds]) trivial
  | deleteDrop id fresh =>
    simp only [advance, change]
    split
    · exact spec_drop (by simp [holds]) trivial
    · exact spec_same trivial
  | copyHeader source => exact (copy_spec ok choice db claimed source).1
  | copyTarget source g id =>
    simp only [advance, change]
    split
    · exact spec_same hstaged
    · next hfree =>
      refine spec_same ⟨hstaged, ?_⟩
      intro hpointer
      refine ⟨?_, List.Pairwise.nil, nofun⟩
      rw [hfills (by simpa using hfree) hpointer]
      rfl
  | copyStage source g id after copied =>
    exact (copy_spec ok choice db claimed source).2 g id after copied hstaged
  | saveHeader id detached =>
    cases ok with
    | false => exact spec_same trivial
    | true =>
      have hpointer := Db.pointer_setDetached db id detached
      refine ⟨fun x => ⟨hpointer x, fun _ _ => rfl⟩, ?_, trivial⟩
      exact ⟨Nat.le_refl _, fun x _ _ => hpointer x, fun _ _ _ _ _ => rfl⟩
  | read id offset limit =>
    simp only [advance, change]
    split
    · exact spec_same trivial
    · split
      · exact spec_same trivial
      · next hlimit => exact spec_same (pageSize_start hlimit)
  | page id g offset limit cursor =>
    simp only [advance, change]
    split
    · split
      · rcases hp : readPage db id g offset cursor with ⟨next, last⟩
        obtain ⟨-, -, hmore⟩ := readPage_spec db id g offset cursor next last hstaged hp
        cases last with
        | true => exact spec_same trivial
        | false => exact spec_same (hmore rfl).1
      · exact spec_same trivial
    · exact spec_same trivial
  | answered id g entries | done => exact spec_same trivial

/-! ## Claims -/

/-- What one transaction of `p` does to the claims: a new claim was free, the claims it goes on with
are noted, and those of others stay noted. Beside `rest`, which others hold, nothing else is noted. -/
structure ClaimStep (p : Proc) (claimed : List Nat) (after : List Nat × Proc) : Prop where
  taken : ∀ id ∈ holds after.2, id ∈ holds p ∨ id ∉ claimed
  noted : (∀ id ∈ holds p, id ∈ claimed) → ∀ id ∈ holds after.2, id ∈ after.1
  others : ∀ id ∈ claimed, id ∉ holds p → id ∈ after.1
  balance : ∀ rest, claimed.Perm (holds p ++ rest) → after.1.Perm (holds after.2 ++ rest)
  distinct : claimed.Nodup → after.1.Nodup

section ClaimStep

variable {p p' : Proc} {claimed : List Nat} {id source : Nat}

theorem claimStep_same (h : holds p' = holds p) : ClaimStep p claimed (claimed, p') :=
  ⟨fun _ hid => .inl (h ▸ hid), fun hnoted x hid => hnoted x (h ▸ hid), fun _ hid _ => hid, fun _ hperm => h ▸ hperm, fun hnodup => hnodup⟩

theorem claimStep_take (hfree : ¬ claimed.contains id = true) (h : holds p' = id :: holds p) : ClaimStep p claimed (id :: claimed, p') := by
  have hnot : id ∉ claimed := by simpa using hfree
  refine ⟨?_, ?_, fun x hx _ => mem_cons_of_mem _ hx, fun _ hperm => h ▸ hperm.cons id, fun hnodup => nodup_cons.2 ⟨hnot, hnodup⟩⟩
  · intro x hx
    rw [h] at hx
    rcases mem_cons.1 hx with rfl | hx
    · exact .inr hnot
    · exact .inl hx
  · intro hnoted x hx
    rw [h] at hx
    rcases mem_cons.1 hx with rfl | hx
    · exact mem_cons_self
    · exact mem_cons_of_mem _ (hnoted x hx)

theorem claimStep_release (h : holds p = [id]) (h' : holds p' = []) : ClaimStep p claimed (claimed.erase id, p') := by
  refine ⟨fun x hx => absurd (h' ▸ hx) not_mem_nil, fun _ x hx => absurd (h' ▸ hx) not_mem_nil, ?_, ?_, (·.erase id)⟩
  · intro x hx hne
    rw [h, mem_singleton] at hne
    exact (mem_erase_of_ne hne).2 hx
  · intro rest hperm
    rw [h] at hperm
    rw [h']
    simpa using hperm.erase id

theorem claimStep_release_both (h : holds p = [id, source]) (h' : holds p' = []) : ClaimStep p claimed ((claimed.erase id).erase source, p') := by
  refine ⟨fun x hx => absurd (h' ▸ hx) not_mem_nil, fun _ x hx => absurd (h' ▸ hx) not_mem_nil, ?_, ?_, fun hnodup => (hnodup.erase id).erase source⟩
  · intro x hx hne
    simp only [h, mem_cons, not_mem_nil, or_false, not_or] at hne
    exact (mem_erase_of_ne hne.2).2 ((mem_erase_of_ne hne.1).2 hx)
  · intro rest hperm
    rw [h] at hperm
    rw [h']
    simpa using (hperm.erase id).erase source

end ClaimStep

theorem claims_advance (ok : Bool) (choice : Nat) (db : Db) (claimed : List Nat) (p : Proc) :
    ClaimStep p claimed (advance ok choice db claimed p).2 := by
  cases p with
  | replaceClaim id entries | addClaim id entries | clearClaim id | deleteClaim id onlyIfDetached
  | copyClaim source | copyTarget source g id =>
    rw [advance]
    split
    · exact claimStep_same rfl
    · next hfree => exact claimStep_take hfree rfl
  | replaceRead id entries | clearBump id | deleteBump id onlyIfDetached | copyHeader source =>
    rw [advance]
    split
    · exact claimStep_release rfl rfl
    · exact claimStep_same rfl
  | replaceSweep id entries current sweep | deleteSweep id fresh sweep =>
    rw [advance]
    split
    · exact claimStep_same rfl
    · exact claimStep_same rfl
    · exact claimStep_release rfl rfl
  | replaceStage id entries current start =>
    rw [advance]
    split <;> exact claimStep_same rfl
  | replacePurge id g =>
    rw [advance]
    split
    · exact claimStep_same rfl
    all_goals exact claimStep_release rfl rfl
  | addHeader entries detached =>
    rw [advance]
    split
    · dsimp only
      split <;> exact claimStep_same rfl
    · exact claimStep_same rfl
  | addStage id entries start =>
    rw [advance]
    split
    · exact claimStep_same rfl
    · exact claimStep_release rfl rfl
    · exact claimStep_same rfl
  | addDiscard id sweep | copyDiscard source id sweep | held id offset limit =>
    rw [advance]
    split <;> exact claimStep_same rfl
  | addDrop id | deleteDrop id fresh => exact claimStep_release rfl rfl
  | upsert id entries pinned | remove id entries pinned =>
    rw [advance]
    split
    · exact claimStep_same rfl
    · split
      · exact claimStep_same rfl
      · dsimp only
        split <;> exact claimStep_same rfl
  | clearSweep id keep sweep =>
    rw [advance]
    split
    · exact claimStep_same rfl
    · exact claimStep_release rfl rfl
  | copyStage source g id after copied =>
    rw [advance]
    split
    · exact claimStep_same rfl
    · exact claimStep_same rfl
    · exact claimStep_release_both rfl rfl
  | copyDrop source id => exact claimStep_release_both rfl rfl
  | saveHeader id detached | answered id g entries | done => exact claimStep_same rfl
  | read id offset limit =>
    rw [advance]
    split
    · exact claimStep_same rfl
    · split
      all_goals exact claimStep_same rfl
  | page id g offset limit cursor =>
    rw [advance]
    split
    · split
      · split
        all_goals exact claimStep_same rfl
      · exact claimStep_same rfl
    · exact claimStep_same rfl

/-! ## The system -/

/-- The invariant of the system: claims are noted and nobody shares one, and every operation finds
what it has staged. -/
structure Inv (s : State) : Prop where
  noted : ∀ (k : Nat) p, s.procs[k]? = some p → ∀ id ∈ holds p, id ∈ s.claimed
  apart : ∀ (k : Nat) p (j : Nat) q, s.procs[k]? = some p → s.procs[j]? = some q → ∀ id ∈ holds p, id ∈ holds q → k = j
  staged : ∀ (k : Nat) p, s.procs[k]? = some p → Staged s.db p

/-- An operation that takes the claim of the list it created finds the generation it fills
empty. -/
def FillsNew (s : State) : Event → Prop
  | .move k _ _ => ∀ p, s.procs[k]? = some p → FillsEmpty s.db s.claimed p
  | _ => True

theorem holds_call (call : Call) : holds call.proc = [] := by
  cases call <;> rfl

theorem staged_call (db : Db) (call : Call) : Staged db call.proc := by
  cases call with
  | replace id entries | add entries detached => exact (unique_uniqueEntries [] entries).1
  | _ => trivial

variable {s : State}

theorem inv_call (call : Call) (h : Inv s) : Inv (step s (.call call)) := by
  -- an operation is an old one or the new one
  have hcases : ∀ (k : Nat) p, (s.procs ++ [call.proc])[k]? = some p → s.procs[k]? = some p ∨ p = call.proc := by
    intro k p hp
    by_cases hk : k < s.procs.length
    · rw [getElem?_append_left hk] at hp
      exact .inl hp
    · rw [getElem?_append_right (by omega)] at hp
      exact .inr (mem_singleton.1 (mem_of_getElem? hp))
  refine ⟨?_, ?_, ?_⟩
  · intro k p hp id hid
    rcases hcases k p hp with hp | rfl
    · exact h.noted k p hp id hid
    · rw [holds_call] at hid
      cases hid
  · intro k p j q hp hq id hid hid'
    rcases hcases k p hp with hp | rfl
    · rcases hcases j q hq with hq | rfl
      · exact h.apart k p j q hp hq id hid hid'
      · rw [holds_call] at hid'
        cases hid'
    · rw [holds_call] at hid
      cases hid
  · intro k p hp
    rcases hcases k p hp with hp | rfl
    · exact h.staged k p hp
    · exact staged_call s.db call

theorem inv_restart (deletes : Nat) : Inv (step s (.restart deletes)) := by
  have hdone : ∀ (k : Nat) p, (s.procs.map fun _ => Proc.done)[k]? = some p → p = .done := by
    intro k p hp
    obtain ⟨q, -, rfl⟩ := mem_map.1 (mem_of_getElem? hp)
    rfl
  refine ⟨?_, ?_, ?_⟩
  · intro k p hp id hid
    rw [hdone k p hp] at hid
    cases hid
  · intro k p j q hp _ id hid
    rw [hdone k p hp] at hid
    cases hid
  · intro k p hp
    rw [hdone k p hp]
    trivial

variable {k : Nat}

theorem step_move (ok : Bool) (choice : Nat) (hp : s.procs[k]? = some p) : step s (.move k ok choice) =
    ⟨(advance ok choice s.db s.claimed p).1, (advance ok choice s.db s.claimed p).2.1,
    s.procs.set k (advance ok choice s.db s.claimed p).2.2⟩ := by
  simp only [step, hp]

theorem step_move_none (ok : Bool) (choice : Nat) (hp : s.procs[k]? = none) : step s (.move k ok choice) = s := by
  simp only [step, hp]

/-- Only operation `k` moves. -/
theorem procs_set {procs : List Proc} {q : Proc} (hp : procs[k]? = some p) {j : Nat}
    (hq : (procs.set k p')[j]? = some q) : (j = k ∧ q = p') ∨ (j ≠ k ∧ procs[j]? = some q) := by
  have hlen : k < procs.length := (List.getElem?_eq_some_iff.1 hp).1
  rw [getElem?_set] at hq
  by_cases hj : k = j
  · left
    simp only [hj, if_true] at hq
    rw [if_pos (hj ▸ hlen)] at hq
    exact ⟨hj.symm, (Option.some.inj hq).symm⟩
  · right
    rw [if_neg hj] at hq
    exact ⟨Ne.symm hj, hq⟩

theorem inv_move (ok : Bool) (choice : Nat) (h : Inv s)
    (hp : s.procs[k]? = some p) (hfills : FillsEmpty s.db s.claimed p) : Inv (step s (.move k ok choice)) := by
  obtain ⟨-, hframe, hstaged⟩ := advance_spec ok choice s.db s.claimed p (h.staged k p hp) hfills
  obtain ⟨htaken, hnoted, hothers, -, -⟩ := claims_advance ok choice s.db s.claimed p
  rw [step_move ok choice hp]
  generalize advance ok choice s.db s.claimed p = after at *
  obtain ⟨db', claimed', p'⟩ := after
  -- another operation holds nothing that `p` held or has just taken
  have hfree : ∀ (j : Nat) q, j ≠ k → s.procs[j]? = some q → ∀ id ∈ holds q, id ∉ holds p ∧ id ∉ holds p' := by
    intro j q hj hq id hid
    have hnot : id ∉ holds p := fun hin => hj (h.apart j q k p hq hp id hid hin)
    refine ⟨hnot, fun hin => ?_⟩
    rcases htaken id hin with hin | hin
    · exact hnot hin
    · exact hin (h.noted j q hq id hid)
  refine ⟨?_, ?_, ?_⟩
  · intro j q hq id hid
    rcases procs_set hp hq with ⟨-, rfl⟩ | ⟨hj, hq⟩
    · exact hnoted (h.noted k p hp) id hid
    · exact hothers id (h.noted j q hq id hid) (hfree j q hj hq id hid).1
  · intro i q j q' hq hq' id hid hid'
    rcases procs_set hp hq with ⟨hi, hqp⟩ | ⟨hi, hold⟩
    · rcases procs_set hp hq' with ⟨hj, -⟩ | ⟨hj, hold'⟩
      · rw [hi, hj]
      · rw [hqp] at hid
        exact absurd hid (hfree j q' hj hold' id hid').2
    · rcases procs_set hp hq' with ⟨hj, hqp⟩ | ⟨hj, hold'⟩
      · rw [hqp] at hid'
        exact absurd hid' (hfree i q hi hold id hid).2
      · exact h.apart i q j q' hold hold' id hid hid'
  · intro j q hq
    rcases procs_set hp hq with ⟨-, rfl⟩ | ⟨hj, hq⟩
    · exact hstaged
    · exact staged_frame hframe q (fun id hid => (hfree j q hj hq id hid).1) (h.staged j q hq)

/-- The invariant survives every step that fills an empty generation. -/
theorem inv_step (s : State) (e : Event) (h : Inv s) (hfills : FillsNew s e) : Inv (step s e) := by
  cases e with
  | call call => exact inv_call call h
  | restart deletes => exact inv_restart deletes
  | move k ok choice =>
    rcases hp : s.procs[k]? with _ | p
    · rw [step_move_none ok choice hp]
      exact h
    · exact inv_move ok choice h hp (hfills p hp)

/-- Whatever operations are interleaved, the claims that are noted are those that operations in flight hold, each
once: none is shared, and none outlives its operation. -/
theorem claims_balanced (db : Db) (es : List Event) : (run step ⟨db, [], []⟩ es).claimed.Nodup ∧
    (run step ⟨db, [], []⟩ es).claimed.Perm ((run step ⟨db, [], []⟩ es).procs.flatMap holds) := by
  refine @inv_run_all _ _ step (fun s => s.claimed.Nodup ∧ s.claimed.Perm (s.procs.flatMap holds)) ?_ es ⟨db, [], []⟩ ⟨nodup_nil, .nil⟩
  rintro s e ⟨hnodup, hperm⟩
  cases e with
  | call call =>
    refine ⟨hnodup, ?_⟩
    simpa [step, holds_call] using hperm
  | restart deletes =>
    refine ⟨nodup_nil, ?_⟩
    have hnone : (s.procs.map fun _ => Proc.done).flatMap holds = [] := by simp [holds]
    exact hnone ▸ .nil
  | move k ok choice =>
    rcases hp : s.procs[k]? with _ | p
    · rw [step_move_none ok choice hp]
      exact ⟨hnodup, hperm⟩
    · obtain ⟨-, -, -, hbalance, hdistinct⟩ := claims_advance ok choice s.db s.claimed p
      obtain ⟨hk, rfl⟩ := List.getElem?_eq_some_iff.1 hp
      rw [step_move ok choice hp]
      refine ⟨hdistinct hnodup, ?_⟩
      -- the operations but `k` hold what they held
      have hothers := hbalance ((s.procs.eraseIdx k).flatMap holds) (hperm.trans ((getElem_cons_eraseIdx_perm hk).symm.flatMap_right holds))
      exact hothers.trans ((set_perm_cons_eraseIdx hk _).symm.flatMap_right holds)

theorem inv_start (db : Db) : Inv ⟨db, [], []⟩ :=
  ⟨fun k p hp => absurd hp (by simp), fun k p j q hp => absurd hp (by simp), fun k p hp => absurd hp (by simp)⟩

/-! ## Every step shows its change -/

/-- The change an event is for. -/
def eventChange (s : State) : Event → Change
  | .move k ok _ =>
    match s.procs[k]? with
    | some p => change ok s.db p
    | none => .nothing
  | _ => .nothing

/-- A leftover is a row of a generation its list does not point to. -/
theorem leftovers_hidden {gone : Row → Bool} (h : gone ∈ leftovers db) {r : Row} (hr : gone r = true) : db.pointer r.list ≠ some r.generation := by
  obtain ⟨header, -, hgone⟩ := mem_flatMap.1 h
  intro hpointer
  simp only [mem_cons, not_mem_nil, or_false] at hgone
  rcases hgone with rfl | rfl
  all_goals
    simp only [Bool.and_eq_true, beq_iff_eq, decide_eq_true_eq] at hr
    rw [← hr.1, hpointer] at hr
    exact absurd hr.2 (Nat.lt_irrefl _)

/-- `ipListsRepoPurgeLeftovers` shows nothing, however far it comes. -/
theorem quiet_purgeLeftovers (db : Db) (deletes : Nat) (x : Nat) : Quiet db (purgeLeftovers db deletes) x := by
  have hfold : ∀ (l : List (Row → Bool)) (mid : Db), (∀ gone ∈ l, ∀ r, gone r = true → mid.pointer r.list ≠ some r.generation) →
      Quiet mid (l.foldl (fun db gone => db.deleteRows gone) mid) x := by
    intro l
    induction l with
    | nil => exact fun mid _ => Quiet.refl mid x
    | cons gone l ih =>
      intro mid hl
      -- the deletes change no pointer, so the rest meets the same condition
      have hrest := ih (mid.deleteRows gone) fun g hg r hr => hl g (mem_cons_of_mem _ hg) r hr
      refine ⟨hrest.1, ?_⟩
      intro g hg
      rw [foldl_cons, hrest.2 g hg, Db.rowsAt_deleteRows, filter_eq_self]
      intro r hr
      obtain ⟨hlist, hgen⟩ := isAt_of_mem hr
      by_contra hgone
      have hhidden := hl gone mem_cons_self r (by simpa using hgone)
      rw [hlist, hgen] at hhidden
      exact hhidden hg
  apply hfold
  intro gone hgone r hr
  exact leftovers_hidden (mem_of_mem_take hgone) hr

theorem shows_step {e : Event} (h : Inv s) (hfills : FillsNew s e) : Shows s.db (step s e).db (eventChange s e) := by
  cases e with
  | call call => exact fun x => Quiet.refl s.db x
  | restart deletes => exact quiet_purgeLeftovers s.db deletes
  | move k ok choice =>
    rcases hp : s.procs[k]? with _ | p
    · rw [step_move_none ok choice hp]
      simp only [eventChange, hp]
      exact fun x => Quiet.refl s.db x
    · rw [step_move ok choice hp]
      simp only [eventChange, hp]
      exact (advance_spec ok choice s.db s.claimed p (h.staged k p hp) (hfills p hp)).1

end Throne.Database.IpLists
