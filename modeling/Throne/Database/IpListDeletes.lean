import Throne.Database.IpListRuns

/-!
# What operations keep of the headers, and where a delete ends

The operations on lists there are add no header and leave the detached flags alone (`advance_plain`). A
delete of a list that is detached, or of any list, comes to its end with the header gone: the claim keeps
every other operation that moves the list's generation out, so no transaction of it is refused
(`deleteAt_advance`, `deleteAt_other`).
-/

namespace Throne.Database.IpLists

/-! ## Headers -/

/-- No header is new, and the flags are as they were. -/
def Keeps (db db' : Db) : Prop := ∀ x h', db'.header x = some h' → ∃ h, db.header x = some h ∧ h'.detached = h.detached

theorem Keeps.refl (db : Db) : Keeps db db := fun _ h' hh' => ⟨h', hh', rfl⟩

variable {db db' : Db}

theorem keeps_of_headers (h : db'.headers = db.headers) : Keeps db db' := by
  intro x h' hh'
  rw [Db.header, h] at hh'
  exact ⟨h', hh', rfl⟩

theorem Keeps.trans {db'' : Db} (h : Keeps db db') (h' : Keeps db' db'') : Keeps db db'' := by
  intro x y hy
  obtain ⟨y', hy', hsame'⟩ := h' x y hy
  obtain ⟨y'', hy'', hsame⟩ := h x y' hy'
  exact ⟨y'', hy'', hsame'.trans hsame⟩

theorem keeps_setGeneration (db : Db) (id generation : Nat) : Keeps db (db.setGeneration id generation) := by
  intro x h' hh'
  rw [Db.setGeneration, Db.header_updateHeader] at hh'
  obtain ⟨h, hh, rfl⟩ := Option.map_eq_some_iff.1 hh'
  refine ⟨h, hh, ?_⟩
  split <;> rfl

theorem keeps_removeHeader (db : Db) (id : Nat) : Keeps db (db.removeHeader id) := by
  intro x h' hh'
  by_cases hx : x = id
  · have hnone : (db.removeHeader id).pointer x = none := by
      rw [Db.pointer_removeHeader, if_pos hx]
    rw [Db.pointer, hh'] at hnone
    cases hnone
  · refine ⟨h', ?_, rfl⟩
    rw [← hh']
    simp only [Db.header, Db.removeHeader, List.find?_filter]
    congr 1
    funext h
    by_cases hh : h.id = x
    · simp [hh, hx]
    · simp [hh]

theorem keeps_pointer (h : Keeps db db') {x : Nat} (hnone : db.pointer x = none) : db'.pointer x = none := by
  rw [Db.pointer, Option.map_eq_none_iff] at hnone ⊢
  cases hx : db'.header x with
  | none => rfl
  | some h' =>
    obtain ⟨y, hy, -⟩ := h x h' hx
    rw [hnone] at hy
    cases hy

variable {id : Nat} {ok : Bool}

theorem keeps_sweepStep {choice : Nat} {keep : Option Nat} {sweep : Sweep}
    {swept : Swept} (h : sweepStep ok choice db id keep sweep = (db', swept)) : db'.headers = db.headers :=
  (sweepStep_spec ok choice db db' id keep sweep swept h).1.headers

theorem keeps_purgeTx {g : Nat} {more : Bool} (h : purgeTx ok db id g = some (db', more)) : db'.headers = db.headers := (purgeTx_spec h).headers

theorem keeps_stageTx {current target start : Nat} {entries : List Entry} {last : Bool}
    (h : stageTx ok db id current target entries start = some (db', last)) : Keeps db db' := by
  have hstaged : Keeps db (db.insertEntries id target (chunkFrom entries start)) :=
    keeps_of_headers (Db.onlyAt_insertEntries db id target _).headers
  rw [stageTx] at h
  split at h
  · simp only at h
    split at h
    · rw [← (Prod.mk.inj (Option.some.inj h)).1]
      exact hstaged.trans (keeps_setGeneration _ _ _)
    · rw [← (Prod.mk.inj (Option.some.inj h)).1]
      exact hstaged
  · cases h

theorem keeps_bump {requireDetached : Bool} {fresh : Nat} (h : bump ok db id requireDetached = some (db', fresh)) :
    Keeps db db' ∧ db'.pointer id = some fresh := by
  rw [bump] at h
  split at h
  · cases h
  · next header hheader =>
    split at h
    · obtain ⟨rfl, rfl⟩ := Prod.mk.inj (Option.some.inj h)
      refine ⟨keeps_setGeneration _ _ _, ?_⟩
      rw [Db.pointer_setGeneration, if_pos rfl, Db.pointer, hheader]
      rfl
    · cases h

/-- An operation on a list there is. -/
def plain : Proc → Bool
  | .replaceClaim _ _ | .replaceRead _ _ | .replaceSweep _ _ _ _ | .replaceStage _ _ _ _
  | .replacePurge _ _ | .upsert _ _ _ | .remove _ _ _ | .clearClaim _ | .clearBump _
  | .clearSweep _ _ _ | .deleteClaim _ _ | .deleteBump _ _ | .deleteSweep _ _ _
  | .deleteDrop _ _ | .done => true
  | _ => false

variable {p : Proc}

theorem fillsEmpty_plain (h : plain p = true) (db : Db) (claimed : List Nat) : FillsEmpty db claimed p := by
  cases p with
  | addClaim | copyTarget => cases h
  | _ => trivial

/-- Such an operation goes on as one, and keeps the headers. -/
theorem advance_plain (h : plain p = true) (ok : Bool) (choice : Nat) (db : Db)
    (claimed : List Nat) : Keeps db (advance ok choice db claimed p).1 ∧ plain (advance ok choice db claimed p).2.2 = true := by
  cases p with
  | replaceClaim id entries | replaceRead id entries | clearClaim id | deleteClaim id onlyIfDetached =>
    simp only [advance]
    split <;> exact ⟨.refl db, rfl⟩
  | replaceSweep id entries current sweep | deleteSweep id fresh sweep =>
    simp only [advance]
    split <;> next hsweep => exact ⟨keeps_of_headers (keeps_sweepStep hsweep), rfl⟩
  | replaceStage id entries current start =>
    simp only [advance]
    split
    · exact ⟨.refl db, rfl⟩
    all_goals next hstage => exact ⟨keeps_stageTx hstage, rfl⟩
  | replacePurge id generation =>
    simp only [advance]
    split
    · next hpurge => exact ⟨keeps_of_headers (keeps_purgeTx hpurge), rfl⟩
    · next hpurge => exact ⟨keeps_of_headers (keeps_purgeTx hpurge), rfl⟩
    · exact ⟨.refl db, rfl⟩
  | upsert id entries pinned =>
    simp only [advance]
    split
    · exact ⟨.refl db, rfl⟩
    · split
      · exact ⟨.refl db, rfl⟩
      · split
        all_goals exact ⟨keeps_of_headers (Db.onlyAt_upsertChunk db _ _ _).headers, rfl⟩
  | remove id entries pinned =>
    simp only [advance]
    split
    · exact ⟨.refl db, rfl⟩
    · split
      · exact ⟨.refl db, rfl⟩
      · split
        all_goals exact ⟨keeps_of_headers (Db.onlyAt_removeChunk db _ _ _).headers, rfl⟩
  | clearBump id | deleteBump id onlyIfDetached =>
    simp only [advance]
    split
    · exact ⟨.refl db, rfl⟩
    · next hbump => exact ⟨(keeps_bump hbump).1, rfl⟩
  | clearSweep id keep sweep =>
    simp only [advance]
    split <;> next hsweep => exact ⟨keeps_of_headers (keeps_sweepStep hsweep), rfl⟩
  | deleteDrop id fresh =>
    simp only [advance]
    refine ⟨?_, rfl⟩
    split
    · exact keeps_removeHeader db id
    · exact .refl db
  | done => exact ⟨.refl db, rfl⟩
  | addHeader | addClaim | addStage | addDiscard | addDrop | copyClaim | copyHeader | copyTarget
  | copyStage | copyDiscard | copyDrop | saveHeader | read | page | held | answered => cases h

/-! ## A delete -/

/-- A delete of that list on its way, as far as the list may go: from the bump on it points to a fresh
generation, and at the end it is gone. -/
def DeleteAt (db : Db) (id : Nat) (onlyIfDetached due : Bool) : Proc → Prop
  | .deleteClaim id' only | .deleteBump id' only => id' = id ∧ only = onlyIfDetached
  | .deleteSweep id' fresh sweep =>
    id' = id ∧ (db.pointer id = none ∨ db.pointer id = some fresh) ∧ sweep ≠ .purge fresh
  | .deleteDrop id' fresh => id' = id ∧ (db.pointer id = none ∨ db.pointer id = some fresh)
  | .done => due = true → db.pointer id = none
  | _ => False

theorem staleRows_ne {keep : Nat} {r : Row} (h : r ∈ staleRows db id (some keep)) : r.generation ≠ keep := by
  rw [staleRows] at h
  split at h
  · have habove := of_decide_eq_true (List.mem_filter.1 h).2
    omega
  · have hbelow := of_decide_eq_true (List.mem_filter.1 h).2
    omega

/-- A sweep of a delete is not refused. -/
theorem sweepStep_fresh {choice : Nat} {fresh : Nat} {sweep : Sweep} {swept : Swept}
    (hpointer : db.pointer id = none ∨ db.pointer id = some fresh) (hsweep : sweep ≠ .purge fresh)
    (h : sweepStep true choice db id (some fresh) sweep = (db', swept)) : swept ≠ .finished false ∧ swept ≠ .going (.purge fresh) := by
  cases sweep with
  | look =>
    rw [sweepStep, if_pos rfl] at h
    split at h
    · next r hr =>
      rw [← (Prod.mk.inj h).2]
      refine ⟨by simp, ?_⟩
      intro hsame
      have hgeneration : r.generation = fresh := by injection hsame with hpurge; injection hpurge
      exact staleRows_ne (List.mem_of_getElem? hr) hgeneration
    · rw [← (Prod.mk.inj h).2]
      exact ⟨by simp, by simp⟩
  | purge g =>
    have hne : db.pointer id ≠ some g := by
      intro hsame
      rcases hpointer with hnone | hfresh
      · rw [hnone] at hsame
        cases hsame
      · rw [hfresh] at hsame
        exact hsweep (congrArg Sweep.purge (Option.some.inj hsame).symm)
    rw [sweepStep] at h
    split at h
    · next hrefused =>
      rw [purgeTx, Bool.true_and, if_pos (bne_iff_ne.2 hne)] at hrefused
      cases hrefused
    · rw [← (Prod.mk.inj h).2]
      refine ⟨by simp, ?_⟩
      intro hsame
      injection hsame with hpurge
      exact hsweep hpurge
    · rw [← (Prod.mk.inj h).2]
      exact ⟨by simp, by simp⟩

/-- Its next transaction. -/
theorem deleteAt_advance {onlyIfDetached due : Bool} (h : DeleteAt db id onlyIfDetached due p)
    (hdue : due = true → onlyIfDetached = false ∨ ∀ x, db.header id = some x → x.detached = true)
    (choice : Nat) (claimed : List Nat) : DeleteAt (advance true choice db claimed p).1 id onlyIfDetached due
    (advance true choice db claimed p).2.2 := by
  cases p with
  | deleteClaim id' only =>
    simp only [advance]
    split <;> exact h
  | deleteBump id' only =>
    obtain ⟨rfl, rfl⟩ := h
    simp only [advance]
    split
    · next hnone =>
      -- The bump is only refused where there is no list.
      intro hyes
      rw [bump] at hnone
      split at hnone
      · next hheader =>
        rw [Db.pointer, hheader]
        rfl
      · next header hheader =>
        have hallowed : (true && (!only || header.detached)) = true := by
          rcases hdue hyes with hany | hdetached
          · rw [hany]
            rfl
          · rw [hdetached header hheader, Bool.or_true]
            rfl
        rw [if_pos hallowed] at hnone
        cases hnone
    · next hbump => exact ⟨rfl, .inr (keeps_bump hbump).2, by simp⟩
  | deleteSweep id' fresh sweep =>
    obtain ⟨rfl, hpointer, hsweep⟩ := h
    simp only [advance]
    split
    · next db' sweep' hstep =>
      have hsame := ((sweepStep_spec _ _ _ _ _ _ _ _ hstep).1.pointer id')
      refine ⟨rfl, ?_, ?_⟩
      · rw [hsame]
        exact hpointer
      · intro hpurge
        exact (sweepStep_fresh hpointer hsweep hstep).2 (by rw [hpurge])
    · next db' hstep =>
      have hsame := ((sweepStep_spec _ _ _ _ _ _ _ _ hstep).1.pointer id')
      refine ⟨rfl, ?_⟩
      rw [hsame]
      exact hpointer
    · next db' hstep => exact absurd rfl (sweepStep_fresh hpointer hsweep hstep).1
  | deleteDrop id' fresh =>
    obtain ⟨rfl, hpointer⟩ := h
    simp only [advance, Bool.true_and]
    intro _
    split
    · rw [Db.pointer_removeHeader, if_pos rfl]
    · next hother =>
      refine hpointer.resolve_right ?_
      intro hfresh
      exact hother (beq_iff_eq.2 hfresh)
  | done => exact h
  | _ => exact h.elim

/-- The transactions of other operations leave a delete where it is. -/
theorem deleteAt_other {held : List Nat} {onlyIfDetached due : Bool}
    (h : DeleteAt db id onlyIfDetached due p) (hkeeps : Keeps db db') (hframe : Frame held db db')
    (hapart : ∀ x ∈ holds p, x ∉ held) : DeleteAt db' id onlyIfDetached due p := by
  have hpointer : ∀ fresh, id ∉ held → (db.pointer id = none ∨ db.pointer id = some fresh) →
      (db'.pointer id = none ∨ db'.pointer id = some fresh) := by
    rintro fresh hfree (hnone | hfresh)
    · exact .inl (keeps_pointer hkeeps hnone)
    · right
      rw [hframe.pointer id hfree (Db.le_lastId_of_pointer hfresh)]
      exact hfresh
  cases p with
  | deleteClaim id' only | deleteBump id' only => exact h
  | deleteSweep id' fresh sweep =>
    obtain ⟨rfl, hold, hsweep⟩ := h
    exact ⟨rfl, hpointer fresh (hapart id' List.mem_cons_self) hold, hsweep⟩
  | deleteDrop id' fresh =>
    obtain ⟨rfl, hold⟩ := h
    exact ⟨rfl, hpointer fresh (hapart id' List.mem_cons_self) hold⟩
  | done => exact fun hyes => keeps_pointer hkeeps (h hyes)
  | _ => exact h.elim

end Throne.Database.IpLists
