import Throne.Database.IpListRuns

/-!
# Reads of an IP list are of one generation

A read asks for the generation of its list, reads pages of it and gives up when the list points
elsewhere; then it reads once more under one hold of the lock. `OneGeneration` says where its answer
comes from: from a stretch of the run that begins when the generation is read and ends with the
answer, in which the list pointed to that generation all the time. Every entry of the answer was a
row of it, and if nobody edited the list in the stretch, the answer is the window of the list at its
beginning.

A list never comes back to a generation it has left (`gone_step`), so a read that finds its
generation at a page had it since the last one.
-/

namespace Throne.Database.IpLists

open Lib.Runs List

/-! ## The property -/

/-- The event edits that list in place. -/
def Edits (id : Nat) (s : State) (e : Event) : Prop := eventChange s e = .edit id

/-- The list points to that generation before the event. -/
def PointsTo (id generation : Nat) (s : State) (_ : Event) : Prop := s.db.pointer id = some generation

/-- The entry was a row of that generation somewhere in the run of `b`. -/
def Seen (id generation : Nat) (m : State) (b : List Event) (e : Entry) : Prop :=
  ∃ b1 b2, b = b1 ++ b2 ∧ e ∈ ((run step m b1).db.rowsAt id generation).map (·.entry)

/-- Operation `k`, a read, answered from one generation. -/
def OneGeneration (k id offset : Nat) (limit : Option Nat) (generation : Nat) (entries : List Entry) (s : State) (es : List Event) : Prop :=
  ∃ a b c, es = a ++ (b ++ c) ∧ ((run step s a).procs[k]? = some (.read id offset limit) ∨ (run step s a).procs[k]? = some (.held id offset limit)) ∧
    (run step (run step s a) b).procs[k]? = some (.answered id generation entries) ∧
    Along step (PointsTo id generation) (run step s a) b ∧
    (∀ e ∈ entries, Seen id generation (run step s a) b e) ∧
    (Along step (fun s e => ¬ Edits id s e) (run step s a) b → entries = window (run step s a).db id generation offset limit)

/-- The operation is deleting rows of generations it takes for stale. -/
def purges : Proc → Bool
  | .replaceSweep _ _ _ _ | .replacePurge _ _ | .addDiscard _ _ | .clearSweep _ _ _
  | .deleteSweep _ _ _ | .copyDiscard _ _ _ => true
  | _ => false

/-- The operation is a `ReplaceEntries`. -/
def replaces : Proc → Bool
  | .replaceClaim _ _ | .replaceRead _ _ | .replaceSweep _ _ _ _ | .replaceStage _ _ _ _
  | .replacePurge _ _ => true
  | _ => false

/-- One event keeps the generations apart. -/
structure Apart (s : State) (e : Event) : Prop where
  /-- Lists change as `change` says: most events show nothing, a bulk write shows all at once. -/
  shown : match eventChange s e with
    | .nothing => ∀ x, (step s e).db.visible x = s.db.visible x
    | .publish id shown => (step s e).db.visible id = shown ∧
        ∀ x, x ≠ id → (step s e).db.visible x = s.db.visible x
    | .edit id => ∀ x, x ≠ id → (step s e).db.visible x = s.db.visible x
  /-- A replace shows nothing but its whole list, and that with its last transaction. -/
  replaced : ∀ k ok choice p, e = .move k ok choice → s.procs[k]? = some p → replaces p = true →
    (∀ x, (step s e).db.visible x = s.db.visible x) ∨ ∃ id entries current start, p = .replaceStage id entries current start ∧ ok = true ∧
        (step s e).db.visible id = some entries ∧
        ∀ x, x ≠ id → (step s e).db.visible x = s.db.visible x
  /-- Purging deletes no row of a generation its list points to. -/
  purged : ∀ k ok choice p, e = .move k ok choice → s.procs[k]? = some p → purges p = true →
    ∀ r ∈ s.db.rows, s.db.pointer r.list = some r.generation → r ∈ (step s e).db.rows

/-! ## Steps -/

variable {s : State} {e : Event}

theorem apart_step (h : Inv s) (hfills : FillsNew s e) : Apart s e := by
  have hshows := shows_step h hfills
  refine ⟨?_, ?_, ?_⟩
  · split
    · next hchange =>
      rw [hchange] at hshows
      exact fun x => (hshows x).visible
    · next hchange =>
      rw [hchange] at hshows
      exact ⟨hshows.2.1, fun x hx => (hshows.1 x hx).visible⟩
    · next hchange =>
      rw [hchange] at hshows
      exact fun x hx => (hshows.1 x hx).visible
  · rintro k ok choice p rfl hp hreplaces
    simp only [eventChange, hp] at hshows
    cases p with
    | replaceStage id entries current start =>
      rw [change] at hshows
      split at hshows
      · next hcond =>
        rw [Bool.and_assoc, Bool.and_eq_true] at hcond
        exact .inr ⟨id, entries, current, start, rfl, hcond.1, hshows.2.1, fun x hx => (hshows.1 x hx).visible⟩
      · exact .inl fun x => (hshows x).visible
    | replaceClaim id entries | replaceRead id entries | replaceSweep id entries current sweep
    | replacePurge id g => exact .inl fun x => Quiet.visible (hshows x)
    | _ => exact absurd hreplaces (by simp [replaces])
  · rintro k ok choice p rfl hp hpurges r hr hcurrent
    simp only [eventChange, hp] at hshows
    have hquiet : Quiet s.db (step s (.move k ok choice)).db r.list := by
      cases p with
      | replaceSweep id entries current sweep | replacePurge id g | addDiscard id sweep
      | clearSweep id keep sweep | deleteSweep id fresh sweep | copyDiscard source id sweep => exact hshows r.list
      | _ => exact absurd hpurges (by simp [purges])
    exact hquiet.keeps hr hcurrent

theorem lastId_purgeLeftovers (db : Db) (deletes : Nat) : (purgeLeftovers db deletes).lastId = db.lastId := by
  rw [purgeLeftovers]
  generalize (leftovers db).take deletes = l
  induction l generalizing db with
  | nil => rfl
  | cons gone l ih => exact ih (db.deleteRows gone)

theorem lastId_step (h : Inv s) (hfills : FillsNew s e) : s.db.lastId ≤ (step s e).db.lastId := by
  cases e with
  | call call => exact Nat.le_refl _
  | restart deletes => exact Nat.le_of_eq (lastId_purgeLeftovers s.db deletes).symm
  | move k ok choice =>
    rcases hp : s.procs[k]? with _ | p
    · rw [step_move_none ok choice hp]
    · rw [step_move ok choice hp]
      exact (advance_spec ok choice s.db s.claimed p (h.staged k p hp) (hfills p hp)).2.1.lastId

/-- The list has left that generation. -/
def Gone (id generation : Nat) (s : State) : Prop := id ≤ s.db.lastId ∧ ∀ g, s.db.pointer id = some g → generation < g

variable {g id : Nat}

section

variable (h : Inv s) (hfills : FillsNew s e)

include h hfills

/-- A list keeps its pointer, moves on to a later generation or is deleted. -/
theorem pointer_step (hid : id ≤ s.db.lastId) : (step s e).db.pointer id = s.db.pointer id ∨ (step s e).db.pointer id = none ∨
    ∃ g g', s.db.pointer id = some g ∧ (step s e).db.pointer id = some g' ∧ g < g' := by
  have hshows := shows_step h hfills
  rcases hchange : eventChange s e with _ | ⟨x, shown⟩ | x
  · rw [hchange] at hshows
    exact .inl (hshows id).1
  · rw [hchange] at hshows
    by_cases hx : id = x
    · subst hx
      rcases hshows.2.2 with hnone | hlater | hnew
      · exact .inr (.inl hnone)
      · exact .inr (.inr hlater)
      · omega
    · exact .inl (hshows.1 id hx).1
  · rw [hchange] at hshows
    by_cases hx : id = x
    · subst hx
      exact .inl hshows.2
    · exact .inl (hshows.1 id hx).1

theorem gone_step (hgone : Gone id g s) : Gone id g (step s e) := by
  refine ⟨Nat.le_trans hgone.1 (lastId_step h hfills), ?_⟩
  intro g' hg'
  rcases pointer_step h hfills hgone.1 with hsame | hnone | ⟨a, b, ha, hb, hlt⟩
  · exact hgone.2 g' (hsame ▸ hg')
  · rw [hnone] at hg'
    cases hg'
  · rw [hb] at hg'
    cases hg'
    exact Nat.lt_trans (hgone.2 a ha) hlt

/-- After one more step the list still points to the generation or has left it. -/
theorem alive_step (halive : s.db.pointer id = some g) : (step s e).db.pointer id = some g ∨ Gone id g (step s e) := by
  have hid := Db.le_lastId_of_pointer halive
  have hle := Nat.le_trans hid (lastId_step h hfills)
  rcases pointer_step h hfills hid with hsame | hnone | ⟨a, b, ha, hb, hlt⟩
  · exact .inl (hsame.trans halive)
  · refine .inr ⟨hle, ?_⟩
    intro g' hg'
    rw [hnone] at hg'
    cases hg'
  · refine .inr ⟨hle, ?_⟩
    intro g' hg'
    rw [hb] at hg'
    rw [halive] at ha
    rw [← Option.some.inj hg', Option.some.inj ha]
    exact hlt

/-- The rows of a generation its list points to before and after a step change by an edit only. -/
theorem rows_step (hbefore : s.db.pointer id = some g) (hafter : (step s e).db.pointer id = some g)
    (hedits : ¬ Edits id s e) : (step s e).db.rowsAt id g = s.db.rowsAt id g := by
  have hshows := shows_step h hfills
  rcases hchange : eventChange s e with _ | ⟨x, shown⟩ | x
  · rw [hchange] at hshows
    exact (hshows id).2 g hbefore
  · rw [hchange] at hshows
    by_cases hx : id = x
    · subst hx
      have hid := Db.le_lastId_of_pointer hbefore
      rcases hshows.2.2 with hnone | ⟨a, b, ha, hb, hlt⟩ | hnew
      · rw [hafter] at hnone
        cases hnone
      · rw [hbefore] at ha
        rw [hafter] at hb
        have hab := (Option.some.inj ha).symm.trans (Option.some.inj hb)
        omega
      · omega
    · exact (hshows.1 id hx).2 g hbefore
  · rw [hchange] at hshows
    by_cases hx : id = x
    · subst hx
      exact absurd hchange hedits
    · exact (hshows.1 id hx).2 g hbefore

end

/-! ## One read in a run -/

variable {k : Nat}

/-- Operation `k` moves, or stays, or is ended by a restart. -/
theorem procs_step {p : Proc} (hp : s.procs[k]? = some p) (e : Event) :
    (∃ ok choice, e = .move k ok choice) ∨ (step s e).procs[k]? = some p ∨ (step s e).procs[k]? = some .done := by
  have hlen : k < s.procs.length := (List.getElem?_eq_some_iff.1 hp).1
  cases e with
  | call call =>
    right; left
    show (s.procs ++ [call.proc])[k]? = some p
    rw [getElem?_append_left hlen]
    exact hp
  | restart deletes =>
    right; right
    show (s.procs.map fun _ => Proc.done)[k]? = some .done
    rw [getElem?_map, hp]
    rfl
  | move j ok choice =>
    by_cases hj : j = k
    · exact .inl ⟨ok, choice, by rw [hj]⟩
    · right; left
      rcases hq : s.procs[j]? with _ | q
      · rw [step_move_none ok choice hq]
        exact hp
      · rw [step_move ok choice hq]
        show (s.procs.set j _)[k]? = some p
        rw [getElem?_set_ne hj]
        exact hp

/-- Operation `k` after its own step. -/
theorem procs_move {p : Proc} (ok : Bool) (choice : Nat) (hp : s.procs[k]? = some p) :
    (step s (.move k ok choice)).procs[k]? = some (advance ok choice s.db s.claimed p).2.2 := by
  have hlen : k < s.procs.length := (List.getElem?_eq_some_iff.1 hp).1
  rw [step_move ok choice hp]
  show (s.procs.set k _)[k]? = _
  rw [getElem?_set_self hlen]

theorem done_run (es : List Event) (s : State) (h : s.procs[k]? = some .done) : (run step s es).procs[k]? = some .done := by
  induction es generalizing s with
  | nil => exact h
  | cons e es ih =>
    apply ih
    rcases procs_step h e with ⟨ok, choice, rfl⟩ | hsame | hdone
    · exact procs_move ok choice h
    · exact hsame
    · exact hdone

variable {entries : List Entry} {es : List Event}

/-- An operation that has ended does not answer. -/
theorem not_answered_of_done (h : s.procs[k]? = some .done) (hanswer : (run step s es).procs[k]? = some (.answered id g entries)) : False := by
  rw [done_run es s h] at hanswer
  cases hanswer

variable {id' : Nat}

/-- An answer stays the answer. -/
theorem answered_run {g' : Nat} {entries' : List Entry} (es : List Event) (s : State) (h : s.procs[k]? = some (.answered id g entries))
    (hanswer : (run step s es).procs[k]? = some (.answered id' g' entries')) : id' = id ∧ g' = g ∧ entries' = entries := by
  induction es generalizing s with
  | nil =>
    rw [run_nil, h] at hanswer
    simp only [Option.some.injEq, Proc.answered.injEq] at hanswer
    exact ⟨hanswer.1.symm, hanswer.2.1.symm, hanswer.2.2.symm⟩
  | cons e es ih =>
    rcases procs_step h e with ⟨ok, choice, rfl⟩ | hsame | hdone
    · exact ih _ (procs_move ok choice h) hanswer
    · exact ih _ hsame hanswer
    · exact (not_answered_of_done hdone hanswer).elim

variable {next : Cursor} {choice : Nat}

section Read

variable {k id offset : Nat} {limit : Option Nat} {g : Nat}

theorem OneGeneration.before (pre : List Event) (h : OneGeneration k id offset limit g entries (run step s pre) es) :
    OneGeneration k id offset limit g entries s (pre ++ es) := by
  obtain ⟨a, b, c, rfl, hstart, hend, hpoints, hseen, hwindow⟩ := h
  have hrun : run step (run step s pre) a = run step s (pre ++ a) := (run_append step s pre a).symm
  rw [hrun] at hstart hend hpoints hseen hwindow
  exact ⟨pre ++ a, b, c, by rw [append_assoc], hstart, hend, hpoints, hseen, hwindow⟩

variable {m : State} {b : List Event}

theorem Seen.append {e : Entry} (h : Seen id g m b e) (es : List Event) : Seen id g m (b ++ es) e := by
  obtain ⟨b1, b2, rfl, he⟩ := h
  exact ⟨b1, b2 ++ es, by rw [append_assoc], he⟩

theorem mem_window {db : Db} {e : Entry} (h : e ∈ window db id g offset limit) : e ∈ (db.rowsAt id g).map (·.entry) := by
  have hmem : e ∈ (db.ordered id g).map (·.entry) := mem_of_mem_drop (mem_of_mem_limited h)
  obtain ⟨r, hr, rfl⟩ := mem_map.1 hmem
  exact mem_map.2 ⟨r, mem_ordered.1 hr, rfl⟩

/-- What a read under one hold of the lock answers. -/
theorem held_window (db : Db) (g : Nat) : (if limit == some 0 then []
    else readHeld db id g offset (db.rows.length + 1) ⟨limit, none, []⟩) = window db id g offset limit := by
  split
  · next hlimit =>
    rw [beq_iff_eq.1 hlimit]
    rfl
  · next hlimit =>
    rw [readHeld_eq db id g offset _ _ (pageSize_start hlimit), pending_start]
    have hordered : (db.ordered id g).length ≤ db.rows.length := by
      rw [Db.ordered, length_insertionSort]
      exact length_filter_le _ _
    show ((db.ordered id g).drop offset).length < db.rows.length + 1
    rw [length_drop]
    omega

/-- A read answered by one step is answered from the list at that step. -/
theorem oneGeneration_now {ok : Bool} (hstart : s.procs[k]? = some (.read id offset limit) ∨ s.procs[k]? = some (.held id offset limit))
    (hpointer : s.db.pointer id = some g) (hanswer : (step s (.move k ok choice)).procs[k]? =
    some (.answered id g (window s.db id g offset limit))) :
    OneGeneration k id offset limit g (window s.db id g offset limit) s (.move k ok choice :: es) := by
  refine ⟨[], [.move k ok choice], es, rfl, hstart, hanswer, ⟨hpointer, trivial⟩, ?_, fun _ => rfl⟩
  intro e he
  exact ⟨[], _, rfl, mem_window he⟩

/-- A read that comes to answer asks for the generation at some time, and is where it was until then. -/
theorem first_move {p : Proc} (es : List Event) (s : State) (hp : p = .read id offset limit ∨ p = .held id offset limit)
    (hk : s.procs[k]? = some p) (hanswer : (run step s es).procs[k]? = some (.answered id' g entries)) :
    ∃ a choice b g', es = a ++ .move k true choice :: b ∧ (run step s a).procs[k]? = some p ∧ (run step s a).db.pointer id = some g' := by
  induction es generalizing s with
  | nil =>
    rw [run_nil, hk] at hanswer
    rcases hp with rfl | rfl <;> cases hanswer
  | cons e es ih =>
    rcases procs_step hk e with ⟨ok, choice, rfl⟩ | hsame | hdone
    · cases hpointer : (if ok then s.db.pointer id else none) with
      | none =>
        have hmove := procs_move ok choice hk
        rcases hp with rfl | rfl <;> simp only [advance, hpointer] at hmove
        all_goals exact (not_answered_of_done hmove hanswer).elim
      | some g' =>
        cases ok with
        | true => exact ⟨[], choice, es, g', rfl, hk, hpointer⟩
        | false => cases hpointer
    · obtain ⟨a, choice, b, g', rfl, ha⟩ := ih _ hsame hanswer
      exact ⟨e :: a, choice, b, g', rfl, ha⟩
    · exact (not_answered_of_done hdone hanswer).elim

/-- The second attempt, under one hold of the lock. -/
theorem held_answered (es : List Event) (s : State) (hk : s.procs[k]? = some (.held id offset limit))
    (hanswer : (run step s es).procs[k]? = some (.answered id' g entries)) : id' = id ∧ OneGeneration k id offset limit g entries s es := by
  obtain ⟨a, choice, b, g', rfl, ha, hpointer⟩ := first_move es s (.inr rfl) hk hanswer
  have hmove := procs_move true choice ha
  simp only [advance, if_true, hpointer, held_window] at hmove
  rw [run_append, run_cons] at hanswer
  obtain ⟨rfl, rfl, rfl⟩ := answered_run b _ hmove hanswer
  exact ⟨rfl, (oneGeneration_now (.inr ha) hpointer hmove).before a⟩

/-- How far the first attempt has come in the stretch `b`, which began at `m` with the read of the
generation: the list still points to it, what has been read and will be read is what was asked for,
unless the list was edited, and what has been read was there. -/
structure Reading (m : State) (b : List Event) (id g offset : Nat) (limit : Option Nat)
    (c : Cursor) : Prop where
  pointer : (run step m b).db.pointer id = some g
  points : Along step (PointsTo id g) m b
  seen : ∀ e ∈ c.out, Seen id g m b e
  pending : Along step (fun s e => ¬ Edits id s e) m b → pending (run step m b).db id g offset c = window m.db id g offset limit

theorem along_snoc {P : State → Event → Prop} {e : Event} : Along step P m (b ++ [e]) ↔ Along step P m b ∧ P (run step m b) e := by
  rw [along_append]
  exact and_congr_right fun _ => and_iff_left trivial

theorem run_snoc (m : State) (b : List Event) (e : Event) : run step m (b ++ [e]) = step (run step m b) e := run_append step m b [e]

variable {c : Cursor}

/-- Steps of others leave the read where it is, or take its generation away. -/
theorem reading_other {e : Event} (h : Inv (run step m b)) (hfills : FillsNew (run step m b) e) (hreading : Reading m b id g offset limit c) :
    Reading m (b ++ [e]) id g offset limit c ∨ Gone id g (run step m (b ++ [e])) := by
  rw [run_snoc]
  rcases alive_step h hfills hreading.pointer with halive | hgone
  · refine .inl ⟨?_, ?_, ?_, ?_⟩
    · rw [run_snoc]
      exact halive
    · exact along_snoc.2 ⟨hreading.points, hreading.pointer⟩
    · exact fun x hx => (hreading.seen x hx).append [e]
    · intro hquiet
      obtain ⟨hbefore, hnow⟩ := along_snoc.1 hquiet
      have hrows := rows_step h hfills hreading.pointer halive hnow
      rw [run_snoc, ← hreading.pending hbefore]
      simp only [IpLists.pending, unread, Db.ordered, hrows]
  · exact .inr hgone

/-- The rows of a page were there when it was read. -/
theorem seen_page {last : Bool} (e : Event) (hseen : ∀ x ∈ c.out, Seen id g m b x)
    (hp : readPage (run step m b).db id g offset c = (next, last)) : ∀ x ∈ next.out, Seen id g m (b ++ [e]) x := by
  intro x hx
  rw [readPage_eq, Prod.mk.injEq] at hp
  rw [← hp.1] at hx
  rcases mem_append.1 hx with hx | hx
  · exact (hseen x hx).append [e]
  · obtain ⟨r, hr, rfl⟩ := mem_map.1 hx
    obtain ⟨n, hn⟩ := unread_eq_drop (run step m b).db id g offset c
    have hr := mem_of_mem_take hr
    rw [hn] at hr
    exact ⟨b, [e], rfl, mem_map.2 ⟨r, mem_ordered.1 (mem_of_mem_drop hr), rfl⟩⟩

/-- Reading a page writes nothing. -/
theorem page_db (ok : Bool) (choice : Nat) (hk : s.procs[k]? = some (.page id g offset limit c)) : (step s (.move k ok choice)).db = s.db := by
  rw [step_move ok choice hk]
  simp only [advance]
  split
  · split
    · split
      · rfl
      · rfl
    · rfl
  · rfl

/-- A page that is not the last one. -/
theorem reading_page (hk : (run step m b).procs[k]? = some (.page id g offset limit c)) (hsize : 0 < pageSize c)
    (hreading : Reading m b id g offset limit c) (hp : readPage (run step m b).db id g offset c = (next, false)) :
    Reading m (b ++ [.move k true choice]) id g offset limit next := by
  have hdb := page_db true choice hk
  refine ⟨?_, along_snoc.2 ⟨hreading.points, hreading.pointer⟩, ?_, ?_⟩
  · rw [run_snoc, hdb]
    exact hreading.pointer
  · exact seen_page _ hreading.seen hp
  · intro hquiet
    rw [run_snoc, hdb, (readPage_spec _ id g offset c next false hsize hp).1]
    exact hreading.pending (along_snoc.1 hquiet).1

/-- The last page: the answer. -/
theorem reading_last (hm : m.procs[k]? = some (.read id offset limit)) (hsize : 0 < pageSize c)
    (hreading : Reading m b id g offset limit c) (hp : readPage (run step m b).db id g offset c = (next, true))
    (hanswer : (step (run step m b) (.move k true choice)).procs[k]? = some (.answered id g next.out)) :
    OneGeneration k id offset limit g next.out m (b ++ .move k true choice :: es) := by
  refine ⟨[], b ++ [.move k true choice], es, by simp, .inl hm, ?_, ?_, ?_, ?_⟩
  · rw [run_nil, run_snoc]
    exact hanswer
  · exact along_snoc.2 ⟨hreading.points, hreading.pointer⟩
  · exact seen_page _ hreading.seen hp
  · intro hquiet
    rw [(readPage_spec _ id g offset c next true hsize hp).2.1 rfl]
    exact hreading.pending (along_snoc.1 hquiet).1

/-- The first attempt, from a page on. -/
theorem page_answered {g' : Nat} (hm : m.procs[k]? = some (.read id offset limit)) (es b : List Event) (c : Cursor)
    (hinv : Inv (run step m b)) (hfills : Along step FillsNew (run step m b) es)
    (hk : (run step m b).procs[k]? = some (.page id g offset limit c)) (hmode : Reading m b id g offset limit c ∨ Gone id g (run step m b))
    (hanswer : (run step (run step m b) es).procs[k]? = some (.answered id' g' entries)) :
    id' = id ∧ OneGeneration k id offset limit g' entries m (b ++ es) := by
  induction es generalizing b c with
  | nil =>
    rw [run_nil, hk] at hanswer
    cases hanswer
  | cons e es ih =>
    obtain ⟨hfill, hfills⟩ := hfills
    have hinv' := inv_step _ e hinv hfill
    -- the rest of the run, with this event moved into the stretch
    have hrest := ih (b ++ [e])
    rw [run_snoc, append_assoc] at hrest
    rcases procs_step hk e with ⟨ok, choice, rfl⟩ | hsame | hdone
    · have hmove := procs_move ok choice hk
      have hsize : 0 < pageSize c := hinv.staged k _ hk
      cases ok with
      | false => exact (not_answered_of_done hmove hanswer).elim
      | true =>
        simp only [advance, if_true] at hmove
        by_cases hpointer : (run step m b).db.pointer id = some g
        · -- the list pointed to the generation since the last page
          have hreading : Reading m b id g offset limit c := by
            rcases hmode with hreading | hgone
            · exact hreading
            · exact absurd (hgone.2 g hpointer) (Nat.lt_irrefl g)
          simp only [hpointer, beq_self_eq_true, if_true] at hmove
          rcases hp : readPage (run step m b).db id g offset c with ⟨next, last⟩
          rw [hp] at hmove
          cases last with
          | true =>
            obtain ⟨rfl, rfl, rfl⟩ := answered_run es _ hmove hanswer
            exact ⟨rfl, reading_last hm hsize hreading hp hmove⟩
          | false =>
            exact hrest next hinv' hfills hmove (.inl (reading_page hk hsize hreading hp)) hanswer
        · have hne : ((run step m b).db.pointer id == some g) = false := by simpa using hpointer
          simp only [hne, Bool.false_eq_true, if_false] at hmove
          obtain ⟨hid, hone⟩ := held_answered es _ hmove hanswer
          rw [← run_snoc] at hone
          refine ⟨hid, ?_⟩
          have hbefore := hone.before (b ++ [.move k true choice])
          rw [append_assoc] at hbefore
          exact hbefore
    · refine hrest c hinv' hfills hsame ?_ hanswer
      rcases hmode with hreading | hgone
      · have hother := reading_other hinv hfill hreading
        rw [run_snoc] at hother
        exact hother
      · exact .inr (gone_step hinv hfill hgone)
    · exact (not_answered_of_done hdone hanswer).elim

/-- A read that is answered is answered from one generation. -/
theorem read_answered (es : List Event) (s : State) (hinv : Inv s) (hfills : Along step FillsNew s es)
    (hk : s.procs[k]? = some (.read id offset limit)) (hanswer : (run step s es).procs[k]? = some (.answered id' g entries)) :
    id' = id ∧ OneGeneration k id offset limit g entries s es := by
  obtain ⟨a, choice, b, g', rfl, ha, hpointer⟩ := first_move es s (.inl rfl) hk hanswer
  obtain ⟨hbefore, hfill, hfills⟩ := (along_append _ _ _).1 hfills
  have hinv' := inv_step _ _ (inv_run inv_step a s hinv hbefore) hfill
  have hmove := procs_move true choice ha
  simp only [advance, if_true, hpointer] at hmove
  rw [run_append, run_cons] at hanswer
  suffices h : id' = id ∧ OneGeneration k id offset limit g entries (run step s a) (.move k true choice :: b) from ⟨h.1, h.2.before a⟩
  by_cases hlimit : (limit == some 0) = true
  · -- nothing was asked for
    simp only [hlimit, if_true] at hmove
    have hwindow : window (run step s a).db id g' offset limit = [] := by
      rw [beq_iff_eq.1 hlimit]
      rfl
    obtain ⟨rfl, rfl, rfl⟩ := answered_run b _ hmove hanswer
    rw [← hwindow] at hmove ⊢
    exact ⟨rfl, oneGeneration_now (.inl ha) hpointer hmove⟩
  · simp only [hlimit, Bool.false_eq_true, if_false] at hmove
    have hdb : (step (run step s a) (.move k true choice)).db = (run step s a).db := by
      rw [step_move true choice ha]
      simp only [advance, if_true, hpointer, hlimit, Bool.false_eq_true, if_false]
    refine page_answered ha b [.move k true choice] ⟨limit, none, []⟩ hinv' hfills hmove (.inl ⟨?_, ⟨hpointer, trivial⟩, ?_, ?_⟩) hanswer
    · show (step (run step s a) (.move k true choice)).db.pointer id = some g'
      rw [hdb]
      exact hpointer
    · simp
    · intro _
      show pending (step (run step s a) (.move k true choice)).db id g' offset _ = _
      rw [hdb]
      exact pending_start (run step s a).db id g' offset limit

end Read

/-! ## Every run -/

/-- From any tables, for any calls in any interleaving, with failed transactions and restarts: as
long as every list that is filled by the operation that created it is found empty, every event keeps
the generations apart and every answered read is of one generation. -/
theorem generations_apart (db : Db) (es : List Event) (hfills : Along step FillsNew ⟨db, [], []⟩ es) :
    Along step Apart ⟨db, [], []⟩ es ∧ ∀ pre post, es = pre ++ post → ∀ k id offset limit id' g entries,
    (run step ⟨db, [], []⟩ pre).procs[k]? = some (.read id offset limit) →
    (run step ⟨db, [], []⟩ es).procs[k]? = some (.answered id' g entries) →
    id' = id ∧ OneGeneration k id offset limit g entries (run step ⟨db, [], []⟩ pre) post := by
  refine ⟨?_, ?_⟩
  · exact along_mono inv_step (fun s e h hf => apart_step h hf) es _ (inv_start db) hfills
  · rintro pre post rfl k id offset limit id' g entries hread hanswer
    obtain ⟨hpre, hpost⟩ := (along_append _ _ _).1 hfills
    rw [run_append] at hanswer
    exact read_answered post _ (inv_run inv_step pre _ (inv_start db) hpre) hpost hread hanswer

/-! ## A read overtaken by a replace -/

/-- One list with one entry. -/
def oneList : Db where
  headers := [⟨1, 0, false⟩]
  rows := [⟨1, 0, 0, ⟨"10.0.0.1", 443, 0⟩⟩]
  lastId := 1
  keyed := by decide
  owned := by decide
  issued := by decide

/-- A read has asked for the generation when a replace publishes. -/
def overtaken : List Event :=
  [.call (.read 1 0 none), .call (.replace 1 [⟨"10.0.0.2", 443, 0⟩]), .move 0 true 0,
    .move 1 true 0, .move 1 true 0, .move 1 true 0, .move 1 true 0, .move 0 true 0, .move 0 true 0]

theorem generations_apart_overtaken : OneGeneration 0 1 0 none 1 [⟨"10.0.0.2", 443, 0⟩] (step ⟨oneList, [], []⟩ (.call (.read 1 0 none)))
    (overtaken.drop 1) := by
  have hfills : Along step FillsNew ⟨oneList, [], []⟩ overtaken := by
    refine ⟨trivial, trivial, ?_, ?_, ?_, ?_, ?_, ?_, ?_, trivial⟩ <;>
      · intro p hp
        cases hp
        trivial
  exact ((generations_apart oneList overtaken hfills).2 [.call (.read 1 0 none)] (overtaken.drop 1) rfl 0 1 0 none 1 1 _ rfl (by decide)).2

/-! ## A copy that shows what a failed replace left -/

/-- An empty list to copy. -/
def emptyList : Db where
  headers := [⟨1, 0, false⟩]
  rows := []
  lastId := 1
  keyed := List.Pairwise.nil
  owned := fun r hr => absurd hr not_mem_nil
  issued := by decide

/-- An address on so many ports. -/
def onPorts (n : Nat) : List Entry := (List.range n).map fun port : Nat => ⟨"10.0.0.1", (port : Int), 0⟩

theorem uniqueEntries_eq_self {seen : List (String × Int)} (hunique : Unique entries) (hcidr : ∀ e ∈ entries, e.cidr.isEmpty = false)
    (hseen : ∀ e ∈ entries, e.target ∉ seen) : uniqueEntries seen entries = entries := by
  induction entries generalizing seen with
  | nil => rfl
  | cons e entries ih =>
    obtain ⟨hhead, htail⟩ := pairwise_cons.1 hunique
    have hfirst : (e.cidr.isEmpty || seen.contains e.target) = false := by
      simp [hcidr e mem_cons_self, hseen e mem_cons_self]
    rw [uniqueEntries, hfirst, if_neg Bool.false_ne_true]
    congr 1
    apply ih htail (fun x hx => hcidr x (mem_cons_of_mem _ hx))
    intro x hx hmem
    rcases mem_cons.1 hmem with heq | hmem
    · exact hhead x hx heq.symm
    · exact hseen x (mem_cons_of_mem _ hx) hmem

theorem unique_onPorts (n : Nat) : Unique (onPorts n) ∧ (onPorts n).length = n ∧ uniqueEntries [] (onPorts n) = onPorts n := by
  have hunique : Unique (onPorts n) := by
    rw [onPorts, Unique, pairwise_map]
    refine List.nodup_range.imp ?_
    intro a b hab heq
    exact hab (Int.ofNat.inj (Prod.mk.inj heq).2)
  refine ⟨hunique, ?_, ?_⟩
  · rw [onPorts, length_map, length_range]
  · apply uniqueEntries_eq_self hunique
    · intro e he
      obtain ⟨port, -, rfl⟩ := mem_map.1 he
      rfl
    · exact fun _ _ => not_mem_nil

section Leftovers

variable {entries : List Entry} (hmany : Db.kIpListsRepoChunkRows < entries.length)
  (hunique : Unique entries) (hself : uniqueEntries [] entries = entries)

/-- A copy has created list 2 and not claimed it yet; a replace of list 2 is about to stage. -/
def beforeStage (entries : List Entry) : State where
  db := emptyList.addHeader false
  claimed := [2, 1]
  procs := [.copyTarget 1 0 2, .replaceStage 2 entries 0 0]

/-- The replace has staged one chunk and failed, its purge has failed too, and the copy has claimed
the list. -/
def beforeFlip (entries : List Entry) : State where
  db := (emptyList.addHeader false).insertEntries 2 1 (chunkFrom entries 0)
  claimed := [2, 1]
  procs := [.copyStage 1 0 2 none [], .done]

/-- The copy creates list 2 and the replace of it comes to its first chunk. -/
def toStage (entries : List Entry) : List Event :=
  [.call (.copy 1), .move 0 true 0, .move 0 true 0, .call (.replace 2 entries), .move 1 true 0, .move 1 true 0, .move 1 true 0]

/-- The replace stages a chunk and fails, its purge fails, and the copy claims list 2. -/
def toFlip : List Event := [.move 1 true 0, .move 1 false 0, .move 1 false 0, .move 0 true 0]

include hself in
theorem run_toStage : run step ⟨emptyList, [], []⟩ (toStage entries) = beforeStage entries := by
  have hcall : step (step (step (step ⟨emptyList, [], []⟩ (.call (.copy 1))) (.move 0 true 0)) (.move 0 true 0)) (.call (.replace 2 entries)) =
      ⟨emptyList.addHeader false, [1], [.copyTarget 1 0 2, .replaceClaim 2 entries]⟩ := by
    have hproc : (Call.replace 2 entries).proc = .replaceClaim 2 entries := by
      rw [Call.proc, hself]
    rw [← hproc]
    rfl
  simp only [toStage, run_cons, run_nil, hcall]
  rfl

include hmany in
theorem run_toFlip : run step (beforeStage entries) toFlip = beforeFlip entries := by
  have hmore : ¬ entries.length ≤ 0 + Db.kIpListsRepoChunkRows := by omega
  have hpointer : (emptyList.addHeader false).pointer 2 = some 0 := by decide
  have hstage : step (beforeStage entries) (.move 1 true 0) = ⟨(beforeFlip entries).db, [2, 1],
        [.copyTarget 1 0 2, .replaceStage 2 entries 0 (0 + Db.kIpListsRepoChunkRows)]⟩ := by
    rw [step_move true 0 (show (beforeStage entries).procs[1]? = _ from rfl)]
    simp only [advance, stageTx, beforeStage, hpointer, hmore]
    rfl
  simp only [toFlip, run_cons, run_nil, hstage]
  rfl

include hmany hunique in
/-- The flip of the copy shows the staged chunk, though it has copied nothing. -/
theorem flip_not_apart : ¬ Apart (beforeFlip entries) (.move 0 true 0) := by
  intro hlast
  have honly : Db.OnlyAt 2 1 (emptyList.addHeader false) (beforeFlip entries).db :=
    Db.onlyAt_insertEntries (emptyList.addHeader false) 2 1 (chunkFrom entries 0)
  have hpointer : (beforeFlip entries).db.pointer 2 = some 0 := (honly.pointer 2).trans (by decide)
  have hsource : sourceUnread (beforeFlip entries).db 1 0 none = [] := by
    rw [sourceUnread, Db.ordered, honly.rows 1 0 (by simp)]
    rfl
  have hcopy : copyTx true (beforeFlip entries).db 1 0 2 none = some ((beforeFlip entries).db.setGeneration 2 1, [], none) := by
    simp only [copyTx, hsource, hpointer]
    rfl
  -- the generation that is flipped to holds the staged chunk
  have hrows : (beforeFlip entries).db.rowsAt 2 1 = Db.chunkRows 2 1 (entries.zipIdx.take (0 + Db.kIpListsRepoChunkRows)) := by
    have hnew : (emptyList.addHeader false).pointer 2 = some 0 := by decide
    exact rowsAt_stage hunique hnew rfl
  have hchange : eventChange (beforeFlip entries) (.move 0 true 0) = .publish 2 (some []) := by
    show change true (beforeFlip entries).db (.copyStage 1 0 2 none []) = _
    simp only [change, hcopy]
    rfl
  have hstep : (step (beforeFlip entries) (.move 0 true 0)).db = (beforeFlip entries).db.setGeneration 2 1 := by
    rw [step_move true 0 (show (beforeFlip entries).procs[0]? = some (.copyStage 1 0 2 none []) from rfl)]
    simp only [advance, hcopy]
  have hshown := hlast.shown
  rw [hchange] at hshown
  have hempty := hshown.1
  rw [hstep, Db.visible, Db.pointer_setGeneration, if_pos rfl, hpointer] at hempty
  have hlength := congrArg List.length (Option.some.inj hempty)
  rw [length_map, Db.ordered, length_insertionSort, Db.rowsAt_setGeneration, hrows,
    Db.chunkRows, length_map, length_take, length_zipIdx, length_nil] at hlength
  have hchunk := Db.kIpListsRepoChunkRows_pos
  omega

include hmany hunique hself in
theorem not_apart_leftovers : ¬ Along step Apart ⟨emptyList, [], []⟩ (toStage entries ++ (toFlip ++ [.move 0 true 0])) := by
  intro h
  have hstage := ((along_append _ (toStage entries) _).1 h).2
  rw [run_toStage hself] at hstage
  have hflip := ((along_append _ toFlip _).1 hstage).2
  rw [run_toFlip hmany] at hflip
  exact flip_not_apart hmany hunique hflip.1

end Leftovers

/-- The copy of an empty list shows the chunk a failed replace had staged. -/
theorem copy_shows_leftovers : ¬ Along step Apart ⟨emptyList, [], []⟩
    (toStage (onPorts (Db.kIpListsRepoChunkRows + 1)) ++ (toFlip ++ [.move 0 true 0])) := by
  obtain ⟨hunique, hlength, hself⟩ := unique_onPorts (Db.kIpListsRepoChunkRows + 1)
  exact not_apart_leftovers (by rw [hlength]; exact Nat.lt_succ_self _) hunique hself

end Throne.Database.IpLists
