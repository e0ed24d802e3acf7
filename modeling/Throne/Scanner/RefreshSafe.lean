import Throne.Scanner.IpListUpdater
import Throne.Database.IpListDeletes

/-!
# What a refresh leaves of a list

A refresh writes back the header it read before it replaced the entries, and the dialog the one it loaded. Where
nobody edits or detaches the list between the two steps of the refresh, or detaches it while the dialog is open, edits
stay, entries come from the source the list has, and a list that was detached or deleted is gone once its delete has
run (`refresh_safe`). Otherwise the edit is lost, the entries belong to another source, or the list is back
(`refresh_unsafe`).
-/

namespace Throne.Scanner

open Lib.Texts Lib.Runs Database.IpLists List

/-! ## The runs in question -/

/-- A refresh of the list has read the header it will write back. -/
def Task.busy (id : Nat) : Task → Prop
  | .replacing id' _ _ _ _ _ => id' = id
  | .save id' _ => id' = id
  | _ => False

/-- The list of a dialog. -/
def Task.edits : Task → Option Nat
  | .editing id _ => some id
  | _ => none

/-- Nobody edits or detaches a list between the second reading of a refresh and its `SaveHeader`, nor edits one that was
detached since the dialog loaded its header. -/
def Meets (w : World) : Event → Prop
  | .edit i _ _ _ => ∀ id ∈ (w.tasks[i]?).bind Task.edits, id ∉ w.detached ∧ ∀ task ∈ w.tasks, ¬task.busy id
  | .detach id => ∀ task ∈ w.tasks, ¬task.busy id
  | _ => True

/-! ## The invariant -/

/-- The header that a refresh will write back is the one that is stored, but for the last update and error. -/
def Fresh (repo : State) (columns : Nat → IpList) (id : Nat) (current : IpList) : Prop :=
  (repo.db.header id).isSome = true → current.stable = (columns id).stable

/-- A replace of that list on its way. -/
def ReplaceOf (id : Nat) : Proc → Prop
  | .replaceClaim id' _ | .replaceRead id' _ | .replaceSweep id' _ _ _ | .replaceStage id' _ _ _
  | .replacePurge id' _ => id' = id
  | .done => True
  | _ => False

/-- What holds between the steps of a task. -/
def TaskOk (repo : State) (columns : Nat → IpList) (detached : List Nat) : Task → Prop
  | .replacing id kind source current k _ =>
    Fresh repo columns id current ∧ (current.source_kind, current.source) = (kind, source) ∧ ∃ p, repo.procs[k]? = some p ∧ ReplaceOf id p
  | .save id current => Fresh repo columns id current
  | .deleting id onlyIfDetached due k =>
    (due = true → onlyIfDetached = false ∨ id ∈ detached) ∧ ∃ p, repo.procs[k]? = some p ∧ DeleteAt repo.db id onlyIfDetached due p
  | _ => True

/-- The invariant. -/
structure Ok (w : World) : Prop where
  repo : Inv w.repo
  plain : ∀ p ∈ w.repo.procs, plain p = true
  tie : ∀ id x, w.repo.db.header id = some x → x.detached = (w.columns id).isDetached
  saved : ∀ id, w.has id = true → (w.columns id).edited = w.saved id
  hidden : ∀ id ∈ w.detached, w.has id = true → (w.columns id).isDetached = true
  tasks : ∀ task ∈ w.tasks, TaskOk w.repo w.columns w.detached task
  published : ∀ publication ∈ w.published, publication.fetched = publication.stored

variable {a b : IpList}

theorem stable_edited (h : a.stable = b.stable) : a.edited = b.edited := by
  have hsame : a.stable.edited = b.stable.edited := by rw [h]
  exact hsame

theorem stable_isDetached (h : a.stable = b.stable) : a.isDetached = b.isDetached := by
  have hsame : a.stable.isDetached = b.stable.isDetached := by rw [h]
  exact hsame

theorem stable_source (h : a.stable = b.stable) : (a.source_kind, a.source) = (b.source_kind, b.source) := by
  have hsame : (a.stable.source_kind, a.stable.source) = (b.stable.source_kind, b.stable.source) := by
    rw [h]
  exact hsame

variable {db : Db} {p : Proc}

section Update

variable {w w' : World}

theorem header_setDetached (db : Db) (id : Nat) (detached : Bool) (x : Nat) : (db.setDetached id detached).header x =
    (db.header x).map fun h => if h.id == id then { h with detached := detached } else h :=
  Db.header_updateHeader db id _ _ x

theorem isSome_setDetached (db : Db) (id : Nat) (detached : Bool) (x : Nat) :
    ((db.setDetached id detached).header x).isSome = (db.header x).isSome := by
  rw [header_setDetached, Option.isSome_map]

theorem frame_setDetached (db : Db) (id : Nat) (detached : Bool) : Frame [] db (db.setDetached id detached) :=
  ⟨Nat.le_refl _, fun x _ _ => Db.pointer_setDetached db id detached x, fun _ _ _ _ _ => rfl⟩

theorem inv_setDetached {repo : State} (h : Inv repo) (id : Nat) (detached : Bool) : Inv { repo with db := repo.db.setDetached id detached } where
  noted := h.noted
  apart := h.apart
  staged k p hp := staged_frame (frame_setDetached repo.db id detached) p
    (fun _ _ => not_mem_nil) (h.staged k p hp)

theorem deleteAt_setDetached {x : Nat} {onlyIfDetached due : Bool} (h : DeleteAt db x onlyIfDetached due p) (id : Nat) (detached : Bool) :
    DeleteAt (db.setDetached id detached) x onlyIfDetached due p := by
  have hpointer := Db.pointer_setDetached db id detached x
  cases p with
  | deleteClaim id' only | deleteBump id' only => exact h
  | deleteSweep id' fresh sweep | deleteDrop id' fresh | done =>
    rw [DeleteAt, hpointer]
    exact h
  | _ => exact h.elim

/-- A header is written, with what the histories say of it. -/
theorem ok_update (id : Nat) (list : IpList) (h : Ok w)
    (hrepo : w'.repo = (w.update id list).repo) (hcolumns : w'.columns = (w.update id list).columns)
    (htasks : w'.tasks = w.tasks) (hpublished : w'.published = w.published)
    (hsaved : w.has id = true → list.edited = w'.saved id) (hsavedOther : ∀ x, x ≠ id → w'.saved x = w.saved x)
    (hhidden : id ∈ w'.detached → w.has id = true → list.isDetached = true)
    (hhiddenOther : ∀ x ∈ w'.detached, x ≠ id → x ∈ w.detached) (hdetached : ∀ x ∈ w.detached, x ∈ w'.detached)
    (hbusy : ∀ task ∈ w.tasks, task.busy id → w.has id = true → list.stable = (w.columns id).stable) : Ok w' := by
  cases hhas : w.has id with
  | false =>
    rw [World.update, hhas] at hrepo hcolumns
    simp only [Bool.false_eq_true, if_false] at hrepo hcolumns
    have hne : ∀ x, w.has x = true → x ≠ id := by
      rintro x hx rfl
      exact absurd (hx.symm.trans hhas) (by decide)
    have hhas' : ∀ x, w'.has x = w.has x := fun x => by rw [World.has, hrepo, World.has]
    refine ⟨by rw [hrepo]; exact h.repo, by rw [hrepo]; exact h.plain, by rw [hrepo, hcolumns]; exact h.tie,
      ?_, ?_, ?_, by rw [hpublished]; exact h.published⟩
    · intro x hx
      rw [hhas'] at hx
      rw [hcolumns, hsavedOther x (hne x hx)]
      exact h.saved x hx
    · intro x hx hexists
      rw [hhas'] at hexists
      rw [hcolumns]
      exact h.hidden x (hhiddenOther x hx (hne x hexists)) hexists
    · intro task htask
      rw [htasks] at htask
      have hok := h.tasks task htask
      rw [hrepo, hcolumns]
      cases task with
      | deleting x onlyIfDetached due k =>
        exact ⟨fun hdue => (hok.1 hdue).imp_right (hdetached x), hok.2⟩
      | header | download | reread | replacing | save | editing | done => exact hok
  | true =>
    rw [World.update, hhas] at hrepo hcolumns
    simp only [if_true] at hrepo hcolumns
    have hhas' : ∀ x, w'.has x = w.has x := by
      intro x
      rw [World.has, hrepo, World.has]
      exact isSome_setDetached _ _ _ _
    have hself : w'.columns id = list := by rw [hcolumns, Function.update_self]
    have hother : ∀ x, x ≠ id → w'.columns x = w.columns x := by
      intro x hx
      rw [hcolumns, Function.update_of_ne hx]
    -- A header that is about to be written back is still the one that is stored.
    have hfresh : ∀ task ∈ w.tasks, ∀ x current, task.busy x → Fresh w.repo w.columns x current → Fresh w'.repo w'.columns x current := by
      intro task htask x current hbusy' hold hexists
      rw [hrepo] at hexists
      have hexists' : w.has x = true := (isSome_setDetached _ _ _ _).symm.trans hexists
      by_cases hx : x = id
      · subst hx
        rw [hself, hbusy task htask hbusy' hexists']
        exact hold hexists'
      · rw [hother x hx]
        exact hold hexists'
    refine ⟨by rw [hrepo]; exact inv_setDetached h.repo id _, by rw [hrepo]; exact h.plain, ?_, ?_, ?_, ?_, by rw [hpublished]; exact h.published⟩
    · intro x y hy
      rw [hrepo] at hy
      simp only at hy
      rw [header_setDetached] at hy
      obtain ⟨z, hz, rfl⟩ := Option.map_eq_some_iff.1 hy
      have hid := Db.header_id hz
      by_cases hx : x = id
      · rw [if_pos (beq_iff_eq.2 (hid.trans hx)), hx, hself]
      · rw [if_neg (fun heq => hx (hid.symm.trans (beq_iff_eq.1 heq))), hother x hx]
        exact h.tie x z hz
    · intro x hx
      rw [hhas'] at hx
      by_cases hxid : x = id
      · rw [hxid, hself]
        exact hsaved hhas
      · rw [hother x hxid, hsavedOther x hxid]
        exact h.saved x hx
    · intro x hx hexists
      rw [hhas'] at hexists
      by_cases hxid : x = id
      · rw [hxid, hself]
        exact hhidden (hxid ▸ hx) hhas
      · rw [hother x hxid]
        exact h.hidden x (hhiddenOther x hx hxid) hexists
    · intro task htask
      rw [htasks] at htask
      have hok := h.tasks task htask
      have hprocs : w'.repo.procs = w.repo.procs := by rw [hrepo]
      cases task with
      | replacing x kind source current k stored =>
        refine ⟨hfresh _ htask x current rfl hok.1, hok.2.1, ?_⟩
        rw [hprocs]
        exact hok.2.2
      | save x current => exact hfresh _ htask x current rfl hok
      | deleting x onlyIfDetached due k =>
        obtain ⟨p, hp, hdelete⟩ := hok.2
        refine ⟨fun hdue => (hok.1 hdue).imp_right (hdetached x), p, hprocs ▸ hp, ?_⟩
        rw [hrepo]
        exact deleteAt_setDetached hdelete id _
      | header | download | reread | editing | done => trivial

end Update

variable {id : Nat}

section Steps

variable {w : World} {task : Task}

theorem ok_setTask (h : Ok w) (htask : TaskOk w.repo w.columns w.detached task) (i : Nat) : Ok (w.setTask i task) where
  repo := h.repo
  plain := h.plain
  tie := h.tie
  saved := h.saved
  hidden := h.hidden
  tasks task' hmem := by
    rcases mem_or_eq_of_mem_set hmem with hold | rfl
    · exact h.tasks task' hold
    · exact htask
  published := h.published

theorem ok_addTask (h : Ok w) (htask : TaskOk w.repo w.columns w.detached task) : Ok (w.addTask task) where
  repo := h.repo
  plain := h.plain
  tie := h.tie
  saved := h.saved
  hidden := h.hidden
  tasks task' hmem := by
    rcases mem_append.1 hmem with hold | hnew
    · exact h.tasks task' hold
    · rw [mem_singleton] at hnew
      rw [hnew]
      exact htask
  published := h.published

/-- A call leaves the operations before it where they are. -/
theorem getElem?_call {procs : List Proc} {k : Nat} (h : procs[k]? = some p) (q : Proc) : (procs ++ [q])[k]? = some p := by
  rw [getElem?_append_left (List.getElem?_eq_some_iff.1 h).1]
  exact h

theorem ok_call (h : Ok w) {call : Call} (hplain : Throne.Database.IpLists.plain call.proc = true) : Ok (w.call call) where
  repo := inv_call call h.repo
  plain p hmem := by
    rcases mem_append.1 hmem with hold | hnew
    · exact h.plain p hold
    · rw [mem_singleton] at hnew
      rw [hnew]
      exact hplain
  tie := h.tie
  saved := h.saved
  hidden := h.hidden
  tasks task hmem := by
    have hok := h.tasks task hmem
    cases task with
    | replacing x kind source current k stored =>
      obtain ⟨hfresh, hsource, p, hp, hof⟩ := hok
      exact ⟨hfresh, hsource, p, getElem?_call hp _, hof⟩
    | deleting x onlyIfDetached due k =>
      obtain ⟨hdue, p, hp, hdelete⟩ := hok
      exact ⟨hdue, p, getElem?_call hp _, hdelete⟩
    | header | download | reread | save | editing | done => exact hok
  published := h.published

/-- The operation a call starts. -/
theorem call_proc (w : World) (call : Call) : (w.call call).repo.procs[w.repo.procs.length]? = some call.proc := getElem?_concat_length

/-! ### One transaction -/

theorem replaceOf_advance (h : ReplaceOf id p) (ok : Bool) (choice : Nat) (db : Db)
    (claimed : List Nat) : ReplaceOf id (advance ok choice db claimed p).2.2 := by
  cases p with
  | replaceClaim id' entries =>
    simp only [advance]
    split <;> exact h
  | replaceRead id' entries =>
    simp only [advance]
    split
    · exact trivial
    · exact h
  | replaceSweep id' entries current sweep =>
    simp only [advance]
    split
    · exact h
    · exact h
    · exact trivial
  | replaceStage id' entries current start =>
    simp only [advance]
    split <;> exact h
  | replacePurge id' generation =>
    simp only [advance]
    split
    · exact h
    · exact trivial
    · exact trivial
  | done => exact trivial
  | _ => exact h.elim

/-- What is published is published for a list there is. -/
theorem publishes_has {ok : Bool} (h : publishes ok db p = true) (hof : ReplaceOf id p) : (db.header id).isSome = true := by
  cases p with
  | replaceStage id' entries current start =>
    obtain rfl : id' = id := hof
    rw [publishes, stageTx] at h
    by_cases hcurrent : (ok && db.pointer id' == some current) = true
    · rw [Bool.and_eq_true, beq_iff_eq] at hcurrent
      exact isSome_header hcurrent.2
    · rw [if_neg hcurrent] at h
      cases h
  | _ => cases h

/-- One transaction of an operation leaves every task as it should be. -/
theorem taskOk_move (h : Ok w) {k : Nat} (hp : w.repo.procs[k]? = some p) (ok : Bool)
    (choice : Nat) (htask : TaskOk w.repo w.columns w.detached task) :
    TaskOk (Throne.Database.IpLists.step w.repo (.move k (ok || deletes p) choice)) w.columns w.detached task := by
  have hplain := h.plain p (mem_of_getElem? hp)
  have hkeeps := (advance_plain hplain (ok || deletes p) choice w.repo.db w.repo.claimed).1
  have hframe := (advance_spec (ok || deletes p) choice w.repo.db w.repo.claimed p (h.repo.staged k p hp) (fillsEmpty_plain hplain _ _)).2.1
  have hlength : k < w.repo.procs.length := (List.getElem?_eq_some_iff.1 hp).1
  rw [step_move (ok || deletes p) choice hp]
  -- The lists there are were there before.
  have hfresh : ∀ id current, Fresh w.repo w.columns id current → Fresh ⟨(advance (ok || deletes p) choice w.repo.db w.repo.claimed p).1,
        (advance (ok || deletes p) choice w.repo.db w.repo.claimed p).2.1,
        w.repo.procs.set k (advance (ok || deletes p) choice w.repo.db w.repo.claimed p).2.2⟩ w.columns id
          current := by
    intro id current hold hexists
    obtain ⟨x, hx⟩ := Option.isSome_iff_exists.1 hexists
    obtain ⟨y, hy, -⟩ := hkeeps id x hx
    exact hold (Option.isSome_iff_exists.2 ⟨y, hy⟩)
  cases task with
  | replacing id kind source current k' stored =>
    obtain ⟨hold, hsource, q, hq, hof⟩ := htask
    refine ⟨hfresh id current hold, hsource, ?_⟩
    by_cases hk : k = k'
    · subst hk
      rw [hp] at hq
      refine ⟨_, getElem?_set_self hlength, ?_⟩
      rw [Option.some.inj hq]
      exact replaceOf_advance hof _ _ _ _
    · exact ⟨q, (getElem?_set_ne hk).trans hq, hof⟩
  | save id current => exact hfresh id current htask
  | deleting id onlyIfDetached due k' =>
    obtain ⟨hdue, q, hq, hdelete⟩ := htask
    refine ⟨hdue, ?_⟩
    by_cases hk : k = k'
    · subst hk
      rw [hp] at hq
      obtain rfl : p = q := Option.some.inj hq
      refine ⟨_, getElem?_set_self hlength, ?_⟩
      have hallowed : due = true → onlyIfDetached = false ∨ ∀ x, w.repo.db.header id = some x → x.detached = true := by
        intro hyes
        refine (hdue hyes).imp_right ?_
        intro hmem x hx
        rw [h.tie id x hx]
        exact h.hidden id hmem (Option.isSome_iff_exists.2 ⟨x, hx⟩)
      cases hdeletes : deletes p with
      | true =>
        rw [Bool.or_true]
        exact deleteAt_advance hdelete hallowed choice _
      | false =>
        cases p with
        | done => exact hdelete
        | deleteClaim | deleteBump | deleteSweep | deleteDrop => cases hdeletes
        | _ => exact hdelete.elim
    · refine ⟨q, (getElem?_set_ne hk).trans hq, ?_⟩
      refine deleteAt_other hdelete hkeeps hframe ?_
      intro x hx hheld
      exact hk (h.repo.apart k p k' q hp hq x hheld hx)
  | header | download | reread | editing | done => trivial

theorem ok_move (h : Ok w) (k : Nat) (ok : Bool) (choice : Nat) : Ok (w.move k ok choice) := by
  rw [World.move]
  cases hp : w.repo.procs[k]? with
  | none => exact h
  | some p =>
    have hplain := h.plain p (mem_of_getElem? hp)
    obtain ⟨hkeeps, hplain'⟩ := advance_plain hplain (ok || deletes p) choice w.repo.db w.repo.claimed
    have hinv := inv_move (ok || deletes p) choice h.repo hp (fillsEmpty_plain hplain _ _)
    -- The lists there are were there before, with the same flag.
    have hold : ∀ x y, (Throne.Database.IpLists.step w.repo (.move k (ok || deletes p) choice)).db.header x =
        some y → ∃ z, w.repo.db.header x = some z ∧ y.detached = z.detached := by
      intro x y hy
      rw [step_move (ok || deletes p) choice hp] at hy
      exact hkeeps x y hy
    have hhas : ∀ x, ((Throne.Database.IpLists.step w.repo (.move k (ok || deletes p) choice)).db.header x).isSome = true → w.has x = true := by
      intro x hx
      obtain ⟨y, hy⟩ := Option.isSome_iff_exists.1 hx
      obtain ⟨z, hz, -⟩ := hold x y hy
      exact Option.isSome_iff_exists.2 ⟨z, hz⟩
    have hprocs : ∀ q ∈ (Throne.Database.IpLists.step w.repo (.move k (ok || deletes p) choice)).procs, Throne.Database.IpLists.plain q = true := by
      intro q hq
      rw [step_move (ok || deletes p) choice hp] at hq
      rcases mem_or_eq_of_mem_set hq with hq | rfl
      · exact h.plain q hq
      · exact hplain'
    have htie : ∀ x y, (Throne.Database.IpLists.step w.repo (.move k (ok || deletes p) choice)).db.header x =
        some y → y.detached = (w.columns x).isDetached := by
      intro x y hy
      obtain ⟨z, hz, hsame⟩ := hold x y hy
      rw [hsame]
      exact h.tie x z hz
    simp only
    split
    · next hpublishes =>
      refine ⟨hinv, hprocs, htie, fun x hx => h.saved x (hhas x hx), fun x hmem hx => h.hidden x hmem (hhas x hx), ?_, ?_⟩
      · intro task hmem
        obtain ⟨task', htask', rfl⟩ := mem_map.1 hmem
        have hok := taskOk_move h hp ok choice (h.tasks task' htask')
        cases task' with
        | replacing id kind source current k' stored
        | header | download | reread | save | deleting | editing | done => exact hok
      · intro publication hmem
        rcases mem_append.1 hmem with hnew | hmem
        · obtain ⟨task, htask, hpublication⟩ := mem_filterMap.1 hnew
          cases task with
          | replacing id kind source current k' stored =>
            rw [Task.publication] at hpublication
            split at hpublication
            · next hk =>
              obtain ⟨hfresh, hsource, q, hq, hof⟩ := h.tasks _ htask
              rw [hk, hp] at hq
              have hexists := publishes_has hpublishes (Option.some.inj hq ▸ hof)
              rw [← Option.some.inj hpublication]
              exact hsource.symm.trans (stable_source (hfresh hexists))
            · cases hpublication
          | header | download | reread | save | deleting | editing | done => cases hpublication
        · exact h.published publication hmem
    · exact ⟨hinv, hprocs, htie, fun x hx => h.saved x (hhas x hx), fun x hmem hx => h.hidden x hmem (hhas x hx),
        fun task hmem => taskOk_move h hp ok choice (h.tasks task hmem), h.published⟩

/-! ### One step -/

/-- What an update of a header leaves alone. -/
theorem update_rest (w : World) (id : Nat) (list : IpList) : (w.update id list).tasks = w.tasks ∧ (w.update id list).saved = w.saved ∧
    (w.update id list).detached = w.detached ∧ (w.update id list).published = w.published := by
  rw [World.update]
  split <;> exact ⟨rfl, rfl, rfl, rfl⟩

/-- `SaveHeader` of a refresh. -/
theorem ok_save (h : Ok w) {current : IpList} (hfresh : Fresh w.repo w.columns id current) : Ok (w.update id current) := by
  obtain ⟨htasks, hsaved, hdetached, hpublished⟩ := update_rest w id current
  refine ok_update id current h rfl rfl htasks hpublished ?_ ?_ ?_ ?_ ?_ ?_
  · intro hexists
    rw [hsaved, stable_edited (hfresh hexists)]
    exact h.saved id hexists
  · intro x _
    rw [hsaved]
  · intro hmem hexists
    rw [hdetached] at hmem
    rw [stable_isDetached (hfresh hexists)]
    exact h.hidden id hmem hexists
  · intro x hmem _
    exact hdetached ▸ hmem
  · intro x hmem
    exact hdetached.symm ▸ hmem
  · intro task _ _ hexists
    exact hfresh hexists

theorem header_some {list : IpList} (h : w.header id = some list) : w.has id = true ∧ w.columns id = list := by
  rw [World.header] at h
  split at h
  · next hhas => exact ⟨hhas, Option.some.inj h⟩
  · cases h

theorem ok_runTask (h : Ok w) {i : Nat} (hmem : task ∈ w.tasks) (outcome : ImportOutcome) (now : Int) : Ok (runTask w i outcome now task) := by
  have hok := h.tasks task hmem
  cases task with
  | header id =>
    rw [runTask]
    split
    · refine ok_setTask h ?_ i
      exact trivial
    · split
      all_goals
        refine ok_setTask h ?_ i
        exact trivial
  | download id kind source =>
    refine ok_setTask h ?_ i
    exact trivial
  | reread id kind source outcome =>
    rw [runTask]
    split
    · refine ok_setTask h ?_ i
      exact trivial
    · next current hcurrent =>
      obtain ⟨-, hcolumns⟩ := header_some hcurrent
      split
      · refine ok_setTask h ?_ i
        exact trivial
      · next hsource =>
        rw [not_or, not_not, not_not] at hsource
        split
        · apply ok_setTask (ok_call h rfl)
          refine ⟨?_, ?_, _, call_proc w _, rfl⟩
          · intro _
            exact congrArg IpList.stable hcolumns.symm
          · rw [hsource.1, hsource.2]
        · refine ok_setTask h ?_ i
          intro _
          rw [hcolumns]
          rfl
  | replacing id kind source current k stored =>
    obtain ⟨hfresh, -⟩ := hok
    rw [runTask]
    split
    · split
      all_goals
        refine ok_setTask h ?_ i
        exact hfresh
    · exact h
  | save id current =>
    rw [runTask]
    refine ok_setTask (ok_save h hok) ?_ i
    exact trivial
  | deleting | editing | done => exact h

/-- `SaveHeader` of the dialog. -/
theorem ok_edit (h : Ok w) (hkept : id ∉ w.detached) (hquiet : ∀ task ∈ w.tasks, ¬task.busy id) {list : IpList}
    (edited : Edited) (last_update : Int) (last_error : Text) :
    Ok { w.update id (list.edit edited last_update last_error) with saved := Function.update w.saved id edited } := by
  obtain ⟨htasks, -, hdetached, hpublished⟩ := update_rest w id (list.edit edited last_update last_error)
  refine ok_update id (list.edit edited last_update last_error) h rfl rfl htasks hpublished ?_ ?_ ?_ ?_ ?_ ?_
  · intro _
    simp only [Function.update_self]
    rfl
  · intro x hx
    exact Function.update_of_ne hx _ _
  · intro hmem
    exact absurd (hdetached ▸ hmem) hkept
  · intro x hmem _
    exact hdetached ▸ hmem
  · intro x hmem
    exact hdetached.symm ▸ hmem
  · intro task htask hbusy _
    exact absurd hbusy (hquiet task htask)

/-- Every step keeps the invariant. -/
theorem ok_step (h : Ok w) {e : Event} (hmeets : Meets w e) : Ok (step w e) := by
  cases e with
  | refresh id => exact ok_addTask h trivial
  | task i outcome now =>
    rw [step]
    split
    · exact h
    · next task htask => exact ok_runTask h (mem_of_getElem? htask) outcome now
  | openDialog id =>
    rw [step]
    split
    · exact h
    · split
      · exact ok_addTask h trivial
      · exact h
  | edit i edited last_update last_error =>
    rw [step]
    split
    · next id list htask =>
      obtain ⟨hkept, hquiet⟩ := hmeets id (by rw [htask]; rfl)
      split
      · refine ok_setTask (ok_edit h hkept hquiet edited last_update last_error) ?_ i
        exact trivial
      · exact h
    · exact h
  | detach id =>
    rw [step]
    obtain ⟨htasks, hsaved, hdetached, hpublished⟩ :=
      update_rest w id { w.columns id with role := .ScanSnapshot, related_test_id := -1 }
    refine ok_update id { w.columns id with role := .ScanSnapshot, related_test_id := -1 } h rfl rfl htasks hpublished ?_ ?_ ?_ ?_ ?_ ?_
    · intro hexists
      simp only [hsaved]
      exact h.saved id hexists
    · intro x _
      simp only [hsaved]
    · exact fun _ _ => rfl
    · intro x hmem hx
      exact (mem_cons.1 hmem).resolve_left hx
    · exact fun x hmem => mem_cons_of_mem _ hmem
    · intro task htask hbusy _
      exact absurd hbusy (hmeets task htask)
  | delete id onlyIfDetached =>
    apply ok_addTask (ok_call h rfl)
    refine ⟨?_, _, call_proc w _, rfl, rfl⟩
    intro hdue
    rw [Bool.or_eq_true, Bool.not_eq_true', contains_iff_mem] at hdue
    exact hdue
  | write call =>
    rw [step]
    split
    · next hwrites =>
      apply ok_call h
      cases call with
      | replace | upsert | remove | clear => rfl
      | add | delete | copy | detach | saveHeader | read => cases hwrites
    · exact h
  | move k ok choice => exact ok_move h k ok choice

end Steps

/-! ## Every run -/

/-- What is promised of the lists: edits stay, entries come from the source the list had when they were
published, and what was detached or deleted is gone once its delete has run. -/
structure RefreshOk (w : World) : Prop where
  kept : ∀ id, w.has id = true → (w.columns id).edited = w.saved id
  sources : ∀ publication ∈ w.published, publication.fetched = publication.stored
  hidden : ∀ id ∈ w.detached, w.has id = true → (w.columns id).isDetached = true
  gone : ∀ id onlyIfDetached k, .deleting id onlyIfDetached true k ∈ w.tasks → w.repo.procs[k]? = some .done → w.has id = false

/-- The flags of the tables are those of the columns. -/
def Tied (db : Db) (columns : Nat → IpList) : Prop := ∀ id x, db.header id = some x → x.detached = (columns id).isDetached

theorem ok_init {columns : Nat → IpList} (h : Tied db columns) : Ok (World.init db columns) where
  repo := inv_start db
  plain _ hmem := absurd hmem not_mem_nil
  tie := h
  saved _ _ := rfl
  hidden _ hmem := absurd hmem not_mem_nil
  tasks _ hmem := absurd hmem not_mem_nil
  published _ hmem := absurd hmem not_mem_nil

theorem refreshOk_of_ok {w : World} (h : Ok w) : RefreshOk w := by
  refine ⟨h.saved, h.published, h.hidden, ?_⟩
  intro id onlyIfDetached k hmem hdone
  obtain ⟨-, p, hp, hdelete⟩ := h.tasks _ hmem
  rw [hdone] at hp
  rw [← Option.some.inj hp] at hdelete
  have hnone : w.repo.db.pointer id = none := hdelete rfl
  rw [Db.pointer, Option.map_eq_none_iff] at hnone
  rw [World.has, hnone]
  rfl

/-- A refresh neither revives nor overwrites, in every run where nobody edits or detaches a list between its
second reading and its `SaveHeader`, nor detaches it while a dialog has its header and then saves. -/
theorem refresh_safe (db : Db) (columns : Nat → IpList) (htied : Tied db columns) (es : List Event)
    (hmeets : Along step Meets (World.init db columns) es) : RefreshOk (run step (World.init db columns) es) := by
  have hstep : ∀ w e, Ok w → Meets w e → Ok (step w e) := fun _ _ h hmeets => ok_step h hmeets
  exact refreshOk_of_ok (inv_run hstep es _ (ok_init htied) hmeets)

/-! ### One list -/

section Sample

instance (id : Nat) : (task : Task) → Decidable (task.busy id)
  | .replacing id' _ _ _ _ _ => inferInstanceAs (Decidable (id' = id))
  | .save id' _ => inferInstanceAs (Decidable (id' = id))
  | .header _ | .download _ _ _ | .reread _ _ _ _ | .deleting _ _ _ _ | .editing _ _ | .done =>
    isFalse fun hbusy => hbusy

instance (w : World) : (e : Event) → Decidable (Meets w e)
  | .edit i _ _ _ => inferInstanceAs (Decidable (∀ id ∈ (w.tasks[i]?).bind Task.edits,
      id ∉ w.detached ∧ ∀ task ∈ w.tasks, ¬task.busy id))
  | .detach id => inferInstanceAs (Decidable (∀ task ∈ w.tasks, ¬task.busy id))
  | .refresh _ | .task _ _ _ | .openDialog _ | .delete _ _ | .write _ | .move _ _ _ => isTrue trivial

theorem sample_keyed : ([] : List Row).Pairwise fun a b => a.clashes b = false := .nil

theorem sample_owned : ∀ r ∈ ([] : List Row), ∃ h ∈ [(⟨1, 0, false⟩ : Header)], h.id = r.list := by simp

theorem sample_issued : ∀ h ∈ [(⟨1, 0, false⟩ : Header)], h.id ≤ 1 := by simp

/-- List 1, without entries. -/
def sampleDb : Db where
  headers := [⟨1, 0, false⟩]
  rows := []
  lastId := 1
  keyed := sample_keyed
  owned := sample_owned
  issued := sample_issued

def sampleList : IpList := ⟨['a'], -1, .User, .Url, ['u'], true, 60, 0, []⟩

def sampleStart : World := World.init sampleDb fun _ => sampleList

def fetched : ImportOutcome := ⟨[⟨"192.0.2.1", 443, 0⟩], []⟩

/-- A refresh up to its second reading. -/
def toReread : List Event := [.refresh 1, .task 0 fetched 5, .task 0 fetched 5, .task 0 fetched 5]

/-- The replace, to its end. -/
def toReplaced : List Event := List.replicate 5 (.move 0 true 0)

/-- The header is written back. -/
def toSaved : List Event := [.task 0 fetched 5, .task 0 fetched 5]

def renamed : Edited := ⟨['b'], .Url, ['u'], true, 60⟩

def moved : Edited := ⟨['a'], .Url, ['v'], true, 60⟩

/-- The list is renamed during the download, and deleted after the refresh. -/
theorem refresh_safe_session : RefreshOk (run step sampleStart
    ([.refresh 1, .openDialog 1, .task 0 fetched 5, .edit 1 renamed 0 [], .task 0 fetched 5, .task 0 fetched 5] ++
    (toReplaced ++ (toSaved ++ ([.detach 1, .delete 1 true] ++ List.replicate 4 (.move 1 true 0)))))) := by
  refine refresh_safe sampleDb (fun _ => sampleList) ?_ _ (by decide)
  intro id x hx
  have hmem : x ∈ sampleDb.headers := mem_of_find?_eq_some hx
  rw [mem_singleton.1 hmem]
  rfl

/-- The list is renamed between the second reading and the `SaveHeader`. -/
def renamedLate : World := run step sampleStart (toReread ++ (toReplaced ++ ([.openDialog 1, .edit 1 renamed 0 []] ++ toSaved)))

/-- It is detached there, and then deleted. -/
def detachedLate : World :=
  run step sampleStart (toReread ++ (toReplaced ++ ([.detach 1, .delete 1 true] ++ (toSaved ++ List.replicate 2 (.move 1 true 0)))))

/-- It gets another source before the entries are replaced. -/
def movedLate : World := run step sampleStart (toReread ++ ([.openDialog 1, .edit 1 moved 0 []] ++ toReplaced))

/-- The new name is lost, the list is back after its delete, and the entries are not of its source. -/
theorem refresh_unsafe : (renamedLate.has 1 = true ∧ (renamedLate.columns 1).edited ≠ renamedLate.saved 1) ∧
    (detachedLate.repo.procs[1]? = some .done ∧ detachedLate.has 1 = true ∧ (detachedLate.columns 1).role = .User) ∧
    (movedLate.published.map Publication.fetched = [(.Url, ['u'])] ∧ movedLate.published.map Publication.stored = [(.Url, ['v'])]) := by
  decide

end Sample

end Throne.Scanner
