import Throne.Core.SysDns.SystemDnsKept

/-!
# The commands of a core keep the invariant

One theorem for each command, and one for the calls. A command is matched with its effect on what the cores
share; what is left to show is what the core itself knows next.
-/

namespace Throne.Core.SysDns

open Lib.Runs Lib.Texts List

variable {ok : Bool} {pc : Pc} {next : Then}

section Commands

variable {userDns : Service → Servers} {userAlias : Bool} {w : World} {p : Nat} {core : Memory}

/-! ## Small steps -/

theorem not_follow (hat : core.pc = pc) (h : ∀ target, pc ≠ .restoreSave (.follow target)) (target : Service) :
    core.pc ≠ .restoreSave (.follow target) :=
  hat ▸ h target

variable {stored : Record} {prepare clean : Bool}

theorem replayOk_after (hp : w.procs p = .live core) (core' : Memory) (h : ReplayOk userDns userAlias w p stored) :
    ReplayOk userDns userAlias (w.after p core' w.host) p stored where
  lock := h.lock
  file := h.file
  dead := (after_other w (not_fileOf_of_dead hp h) core' w.host).trans h.dead
  values := h.values
  covered := h.covered
  aliasKept := h.aliasKept
  flag := h.flag

variable {todo order : List Service} {service : Service}

theorem replayLoop_eq (core : Memory) (prepare : Bool) (stored : Record) (todo : List Service) :
    ∃ pc, replayLoop core prepare stored todo = core.goto pc ∧ pc.locked = true ∧ pc.preparing = prepare := by
  cases todo with
  | nil | cons service todo => exact ⟨_, rfl, rfl, rfl⟩

theorem pcOk_replayLoop (core : Memory) (prepare : Bool)
    (h : ReplayOk userDns userAlias w p stored) (hnodup : todo.Nodup) (hmem : ∀ x ∈ todo, x ∈ stored.Services) :
    PcOk userDns userAlias w p (replayLoop core prepare stored todo) := by
  cases todo with
  | nil => exact h
  | cons service todo => exact ⟨h, hnodup, hmem⟩

theorem releaseLoop_eq (core : Memory) (todo : List Service) (clean : Bool) :
    ∃ pc, releaseLoop core todo clean = core.goto pc ∧ pc.locked = false ∧ pc.preparing = false := by
  cases todo with
  | nil | cons service todo => exact ⟨_, rfl, rfl, rfl⟩

theorem pcOk_releaseLoop (h : Releasing core) (hloop : LoopOk core todo clean) : PcOk userDns userAlias w p (releaseLoop core todo clean) := by
  cases todo with
  | nil =>
    refine ⟨⟨h.pid, h.monitor, h.current⟩, fun hclean => ?_⟩
    -- Where no command has failed nothing is left in the record.
    apply eq_nil_iff_forall_not_mem.2
    intro service hmem
    exact absurd (hloop.all hclean service hmem) not_mem_nil
  | cons service todo =>
    exact ⟨⟨h.pid, h.monitor, h.current⟩, hloop.once, hloop.recorded, hloop.all⟩

/-- What is left to be put back once a service has been, or could not be. -/
theorem loopOk_tail (h : LoopOk core (service :: todo) clean) : LoopOk core todo false where
  once := (nodup_cons.1 h.once).2
  recorded other hother := h.recorded other (mem_cons_of_mem _ hother)
  all hclean := absurd hclean Bool.false_ne_true

theorem loopOk_unclean (h : LoopOk core todo clean) : LoopOk core todo false where
  once := h.once
  recorded := h.recorded
  all hclean := absurd hclean Bool.false_ne_true

/-- The invariant after one command of the core. -/
def CommandOk (userDns : Service → Servers) (userAlias : Bool) (w : World) (p : Nat) (core : Memory) (ok : Bool) (order : List Service) : Prop :=
  let r := command w.alive p w.host core ok order
  Ok userDns userAlias (w.after p r.2 r.1)

section

variable (hok : Ok userDns userAlias w) (hp : w.procs p = .live core)

include hok hp

theorem pid_ne_zero : p ≠ 0 := by
  rintro rfl
  rw [hok.procs.zero] at hp
  cases hp

theorem not_locked (h : core.pc.locked = false) : w.host.lock ≠ some p := by
  intro hlock
  obtain ⟨core', hcore', hlocked⟩ := hok.procs.lock p hlock
  rw [hp] at hcore'
  cases hcore'
  rw [h] at hlocked
  cases hlocked

theorem held_pid (h : core.owned.PID ≠ 0) : core.owned.PID = p := ((hok.cores p core hp).pid).resolve_left h

/-- A core with a monitor has its record in the file. -/
theorem held_of_monitor (h : core.monitor = true) : core.owned.PID ≠ 0 := by
  intro hzero
  obtain ⟨-, hno, -⟩ := (hok.cores p core hp).fresh hzero
  rw [h] at hno
  exact absurd hno (Bool.false_ne_true ·.symm)

/-- A core that moves on to its next command and keeps its record as it was. -/
theorem ok_move {host : Host} (heffect : Effect userDns userAlias w p core host) (hnot : ∀ target, core.pc ≠ .restoreSave (.follow target))
    (hholds : pc.preparing = true → core.Holds) (hlock : host.lock = some p → pc.locked = true)
    (hfile : ∀ rec : Record, rec.PID = p → (host.file = some rec ↔ w.host.file = some rec))
    (hset : ∀ service, host.setBy service ≠ none → w.host.setBy service ≠ none ∨ service ∈ core.owned.Services)
    (halias : host.aliasPresent = true → w.host.aliasPresent = true ∨ core.owned.Alias = true)
    (hpc : PcOk userDns userAlias (w.after p (core.goto pc) host) p (core.goto pc)) :
    Ok userDns userAlias (w.after p (core.goto pc) host) := by
  have hcore := hok.cores p core hp
  apply ok_after hok hp heffect
  · rintro (hpid | hpreparing)
    · exact .inl (.inl hpid)
    · exact .inl (hholds hpreparing)
  · exact hlock
  · exact fun hzero => .inl hzero
  · refine coreOk_moved hcore hfile hset halias (fun hzero => (hcore.fresh hzero).2.2) ?_ hpc
    intro service hservice
    rcases hcore.current service hservice with hmem | ⟨target, hat⟩
    · exact .inl hmem
    · exact absurd hat (hnot target)

/-- A core that only moves on to its next command. -/
theorem ok_goto (hnot : ∀ target, core.pc ≠ .restoreSave (.follow target))
    (hholds : pc.preparing = true → core.Holds) (hlock : w.host.lock = some p → pc.locked = true)
    (hpc : PcOk userDns userAlias (w.after p (core.goto pc) w.host) p (core.goto pc)) :
    Ok userDns userAlias (w.after p (core.goto pc) w.host) :=
  ok_move hok hp .none hnot hholds hlock (fun _ _ => Iff.rfl) (fun _ h => .inl h) (fun h => .inl h) hpc

theorem ok_idle (hnot : ∀ target, core.pc ≠ .restoreSave (.follow target)) (hlock : core.pc.locked = false) :
    Ok userDns userAlias (w.after p (core.goto .idle) w.host) :=
  ok_goto hok hp hnot nofun (fun h => absurd h (not_locked hok hp hlock)) trivial

theorem ok_same : Ok userDns userAlias (w.after p core w.host) := by
  rw [after_same hp]
  exact hok

/-! ## The replay of a dead core's record -/

/-- What a core that prepares knows where there was nothing to replay. -/
theorem ok_replayed (hat : core.pc = .load prepare) (hfile : prepare = true → w.host.file = none ∨ w.host.FileOf p) :
    Ok userDns userAlias (w.after p (replayed core prepare ∅) w.host) := by
  have hcore := hok.cores p core hp
  have hnot := not_follow hat (by simp)
  have hlocked : core.pc.locked = false := hat ▸ rfl
  cases prepare with
  | false => exact ok_idle hok hp hnot hlocked
  | true =>
    refine ok_goto hok hp hnot (fun _ => .inr (by rw [hat]; rfl)) (fun h => absurd h (not_locked hok hp hlocked)) ?_
    refine ⟨by rintro _ _ ⟨⟩, fun _ => rfl, fun service hset => .inr ?_, ?_⟩
    · rcases hfile rfl with hnone | hown
      · obtain ⟨rec, hrec, -⟩ := hok.shared.covered service hset
        cases hnone.symm.trans hrec
      · exact hcore.covered (.inr hown) service hset
    · intro hpresent
      rcases hfile rfl with hnone | hown
      · rcases hok.shared.aliasCovered hpresent with huser | ⟨rec, hrec, -⟩
        · exact .inl huser
        · cases hnone.symm.trans hrec
      · exact hcore.aliasKept (.inr hown) hpresent

/-- On to the next service of the record. -/
theorem ok_replayLoop {host : Host} (heffect : Effect userDns userAlias w p core host)
    (hnot : ∀ target, core.pc ≠ .restoreSave (.follow target)) (hholds : prepare = true → core.Holds)
    (hreplay : ∀ core', ReplayOk userDns userAlias (w.after p core' host) p stored)
    (hfile : ∀ rec : Record, rec.PID = p → (host.file = some rec ↔ w.host.file = some rec))
    (hset : ∀ service, host.setBy service ≠ none → w.host.setBy service ≠ none ∨ service ∈ core.owned.Services)
    (halias : host.aliasPresent = true → w.host.aliasPresent = true ∨ core.owned.Alias = true)
    (hnodup : todo.Nodup) (hmem : ∀ x ∈ todo, x ∈ stored.Services) :
    Ok userDns userAlias (w.after p (replayLoop core prepare stored todo) host) := by
  have hpc := pcOk_replayLoop core prepare (hreplay (replayLoop core prepare stored todo)) hnodup hmem
  obtain ⟨pc, hpcEq, hlocked, hprepare⟩ := replayLoop_eq core prepare stored todo
  rw [hpcEq] at hpc ⊢
  exact ok_move hok hp heffect hnot (fun h => hholds (hprepare.symm.trans h)) (fun _ => hlocked) hfile hset halias hpc

/-- The lock is taken and the record of a dead core is there to be replayed. -/
theorem ok_load (hat : core.pc = .load prepare) (hmeets : Meets w (.next p ok order)) : CommandOk userDns userAlias w p core ok order := by
  have hcore := hok.cores p core hp
  have hlocked : core.pc.locked = false := hat ▸ rfl
  simp only [CommandOk, command, hat]
  split
  · next hfailed =>
    -- Where the replay fails there was nothing to replay.
    apply ok_replayed hok hp hat
    rintro rfl
    rcases hmeets with hok' | hmeets
    · exact absurd hfailed (by simp [hok'])
    · have hhere := hmeets core hp
      rw [hat] at hhere
      exact hhere
  · split
    · exact ok_same hok hp
    · next hlock =>
      rw [not_ne_iff] at hlock
      split
      · next hnone => exact ok_replayed hok hp hat fun _ => .inl hnone
      · next stored hstored =>
        split
        · next hlive =>
          apply ok_replayed hok hp hat
          rintro rfl
          -- A core that prepares finds no record of another living one.
          rcases hlive with hown | halive
          · exact .inr ⟨stored, hstored, hown⟩
          · obtain ⟨other, hother⟩ : ∃ other, w.procs stored.PID = .live other := by
              rw [World.alive] at halive
              split at halive
              · next other hother => exact ⟨other, hother⟩
              · cases halive
            have hheld : core.Holds := .inr (by rw [hat]; rfl)
            have hown := hok.procs.holder p stored.PID core other hp hheld hother ⟨stored, hstored, rfl⟩
            exact .inr ⟨stored, hstored, hown⟩
        · next hdead =>
          rw [not_or] at hdead
          split
          · next horder =>
            have hreplay : ∀ core', ReplayOk userDns userAlias (w.after p core' { w.host with lock := some p }) p stored := by
              intro core'
              refine ⟨rfl, ⟨stored, hstored, rfl⟩, ?_, hok.shared.values stored hstored, ?_, ?_, hok.shared.aliasFlag stored hstored⟩
              · rw [after_other w hdead.1]
                have hborn := hok.procs.born stored hstored
                have hnot := hdead.2
                rw [World.alive] at hnot
                cases hproc : w.procs stored.PID with
                | unborn => exact absurd hproc hborn
                | live other => simp [hproc] at hnot
                | dead => rfl
              · intro service hset
                obtain ⟨rec, hrec, hmem⟩ := hok.shared.covered service hset
                rw [hstored] at hrec
                cases hrec
                exact hmem
              · intro hpresent
                rcases hok.shared.aliasCovered hpresent with huser | ⟨rec, hrec, hflag⟩
                · exact .inl huser
                · rw [hstored] at hrec
                  cases hrec
                  exact .inr hflag
            refine ok_replayLoop hok hp (.lock hlock) ?_ ?_ hreplay (fun _ _ => Iff.rfl) (fun _ h => .inl h) (fun h => .inl h)
              (horder.nodup_iff.2 stored.Services.keys_nodup) fun x hx => horder.mem_iff.1 hx
            · rw [hat]
              exact nofun
            · rintro rfl
              exact .inr (by rw [hat]; rfl)
          · exact ok_same hok hp

/-- A service of the dead core's record is put back, or stays in the record. -/
theorem ok_replay (hat : core.pc = .replay prepare stored service todo) : CommandOk userDns userAlias w p core ok order := by
  have hpc := (hok.cores p core hp).pc
  rw [PcOk, hat] at hpc
  obtain ⟨hreplay, hnodup, hmem⟩ := hpc
  obtain ⟨hnotMem, hnodup⟩ := nodup_cons.1 hnodup
  have hnot := not_follow hat (by simp)
  have hholds : prepare = true → core.Holds := by
    rintro rfl
    exact .inr (by rw [hat]; rfl)
  simp only [CommandOk, command, hat]
  split
  · obtain ⟨servers, hservers⟩ :=
      Option.isSome_iff_exists.1 (AList.lookup_isSome.2 (hmem service mem_cons_self))
    obtain rfl := hreplay.values service servers hservers
    rw [hservers, Option.getD_some]
    refine ok_replayLoop hok hp (.back service) hnot hholds ?_ (fun _ _ => Iff.rfl) (fun s hs => .inl (setBack_set hs).2) (fun h => .inl h) hnodup ?_
    · intro core'
      refine ⟨hreplay.lock, hreplay.file, ?_, values_erase hreplay.values service, ?_, hreplay.aliasKept, hreplay.flag⟩
      · exact (after_other w (not_fileOf_of_dead hp hreplay) core' _).trans hreplay.dead
      · exact fun s hs => AList.mem_erase.2 ⟨(setBack_set hs).1, hreplay.covered s (setBack_set hs).2⟩
    · intro x hx
      refine AList.mem_erase.2 ⟨?_, hmem x (mem_cons_of_mem _ hx)⟩
      rintro rfl
      exact hnotMem hx
  · refine ok_replayLoop hok hp .none hnot hholds (fun core' => replayOk_after hp core' hreplay)
      (fun _ _ => Iff.rfl) (fun _ h => .inl h) (fun h => .inl h) hnodup ?_
    exact fun x hx => hmem x (mem_cons_of_mem _ hx)

/-- The alias of the dead core goes. -/
theorem ok_replayAlias (hat : core.pc = .replayAlias prepare stored) (hmeets : Meets w (.next p ok order)) :
    CommandOk userDns userAlias w p core ok order := by
  have hreplay := (hok.cores p core hp).pc
  rw [PcOk, hat] at hreplay
  have hnot := not_follow hat (by simp)
  have hholds : prepare = true → core.Holds := by
    rintro rfl
    exact .inr (by rw [hat]; rfl)
  simp only [CommandOk, command, hat]
  cases hflag : stored.Alias with
  | false =>
    have hhost : { w.host with aliasPresent := w.host.aliasPresent && !(false && ok) } = w.host := by
      rw [Bool.false_and, Bool.not_false, Bool.and_true]
    rw [hhost]
    refine ok_goto hok hp hnot hholds (fun _ => rfl) ⟨?_, rfl⟩
    have hafter := replayOk_after hp (core.goto (.replayWrite prepare { stored with Alias := false })) hreplay
    refine ⟨hafter.lock, hafter.file, hafter.dead, hafter.values, hafter.covered, ?_, by simp⟩
    intro hpresent
    rcases hreplay.aliasKept hpresent with huser | hown
    · exact .inl huser
    · rw [hflag] at hown
      cases hown
  | true =>
    have hok' : ok = true := by
      rcases hmeets with hok' | hmeets
      · exact hok'
      · have hhere := hmeets core hp
        rw [hat] at hhere
        exact absurd (hflag.symm.trans hhere) (by decide)
    have hhost : { w.host with aliasPresent := w.host.aliasPresent && !(true && ok) } = { w.host with aliasPresent := false } := by
      rw [hok', Bool.and_true, Bool.not_true, Bool.and_false]
    rw [hhost]
    refine ok_move hok hp (.aliasOff (hreplay.flag hflag)) hnot hholds (fun _ => rfl) (fun _ _ => Iff.rfl) (fun _ h => .inl h) (by simp) ⟨?_, rfl⟩
    exact ⟨hreplay.lock, hreplay.file, (after_other w (not_fileOf_of_dead hp hreplay) _ _).trans hreplay.dead, hreplay.values,
      hreplay.covered, by rintro ⟨⟩, by rintro ⟨⟩⟩

/-- The record of the dead core goes, or is written with what is left. -/
theorem ok_written {file : Option Record} {leftovers : AList fun _ : Service => Servers} (hat : core.pc = .replayWrite prepare stored)
    (hfile : file = w.host.file ∨ file = some stored ∨ file = none ∧ ∀ service, service ∉ stored.Services) (hvalues : Values userDns leftovers)
    (hleft : ∀ service, service ∈ stored.Services → service ∈ leftovers) : Ok userDns userAlias
    (w.after p (replayed core prepare leftovers) { w.host with file := file, lock := none }) := by
  have hcore := hok.cores p core hp
  have hpc := hcore.pc
  rw [PcOk, hat] at hpc
  obtain ⟨hreplay, hflag⟩ := hpc
  have hnot := not_follow hat (by simp)
  have hdead := not_fileOf_of_dead hp hreplay
  -- Neither before nor after is the file this core's own.
  have hbefore : ∀ rec : Record, rec.PID = p → w.host.file ≠ some rec := by
    intro rec hpid hrec
    obtain ⟨rec', hrec', hpid'⟩ := hreplay.file
    rw [hrec] at hrec'
    cases hrec'
    exact hdead (hpid'.symm.trans hpid)
  have hafter : ∀ rec : Record, rec.PID = p → file ≠ some rec := by
    intro rec hpid hrec
    rcases hfile with rfl | rfl | ⟨rfl, -⟩
    · exact hbefore rec hpid hrec
    · cases hrec
      exact hdead hpid
    · cases hrec
  have heffect : Effect userDns userAlias w p core { w.host with file := file, lock := none } :=
    .written stored file hreplay hflag hfile
  have hsame : ∀ rec : Record, rec.PID = p → (file = some rec ↔ w.host.file = some rec) :=
    fun rec hpid => iff_of_false (hafter rec hpid) (hbefore rec hpid)
  cases prepare with
  | false =>
    exact ok_move hok hp heffect hnot (by rintro ⟨⟩) (by rintro ⟨⟩) hsame (fun _ h => .inl h) (fun h => .inl h) trivial
  | true =>
    refine ok_move hok hp heffect hnot (fun _ => .inr (by rw [hat]; rfl)) (by simp) hsame (fun _ h => .inl h) (fun h => .inl h) ⟨hvalues, ?_, ?_, ?_⟩
    · rintro ⟨rec, hrec, hpid⟩
      exact absurd hrec (hafter rec hpid)
    · exact fun service hset => .inl (hleft service (hreplay.covered service hset))
    · intro hpresent
      rcases hreplay.aliasKept hpresent with huser | hown
      · exact .inl huser
      · rw [hflag] at hown
        cases hown

theorem ok_replayWrite (hat : core.pc = .replayWrite prepare stored) : CommandOk userDns userAlias w p core ok order := by
  have hpc := (hok.cores p core hp).pc
  rw [PcOk, hat] at hpc
  simp only [CommandOk, command, hat]
  split
  · next hempty =>
    have hnone : ∀ service, service ∉ stored.Services := by
      intro service hmem
      rw [AList.mem_keys, hempty] at hmem
      cases hmem
    refine ok_written hok hp hat ?_ (by rintro _ _ ⟨⟩) fun service h => absurd h (hnone service)
    cases ok with
    | true => exact .inr (.inr ⟨rfl, hnone⟩)
    | false => exact .inl rfl
  · refine ok_written hok hp hat ?_ hpc.1.values fun _ h => h
    cases ok with
    | true => exact .inr (.inl rfl)
    | false => exact .inl rfl

/-! ## The rest of `Prepare` -/

/-- The core takes over what is left. -/
theorem ok_merge {leftovers : AList fun _ : Service => Servers} (hat : core.pc = .merge leftovers) :
    CommandOk userDns userAlias w p core ok order := by
  have hcore := hok.cores p core hp
  have hpc := hcore.pc
  rw [PcOk, hat] at hpc
  obtain ⟨hvalues, hown, hcovered, halias⟩ := hpc
  have hne := pid_ne_zero hok hp
  have hlocked : core.pc.locked = false := hat ▸ rfl
  simp only [CommandOk, command, hat]
  refine ok_after hok hp .none ?_ (fun h => absurd h (not_locked hok hp hlocked)) (fun h => absurd h hne) ?_
  · exact fun _ => .inl (.inr (by rw [hat]; rfl))
  · refine ⟨.inr rfl, fun h => absurd h hne, ?_, ?_, ?_, ?_, ?_, hcore.monitored, ?_, hne⟩
    · intro service servers hservers
      rcases AList.lookup_union_eq_some.1 hservers with hleft | ⟨-, hheld⟩
      · exact hvalues service servers hleft
      · exact hcore.values service servers hheld
    · exact fun _ service hset => AList.mem_union.2 (hcovered service hset)
    · intro _ hpresent
      rcases halias hpresent with huser | hflag
      · exact .inl huser
      · exact .inr (by simp only [hflag, Bool.true_or])
    · intro hflag
      rcases Bool.or_eq_true_iff.1 hflag with hbefore | habsent
      · exact hcore.flag hbefore
      · -- The user's own alias would be there.
        cases huser : userAlias with
        | false => rfl
        | true =>
          have hpresent : w.host.aliasPresent = true := hok.shared.usersAlias huser
          simp [hpresent] at habsent
    · intro rec hrec hpid service hservice
      rw [hown ⟨rec, hrec, hpid⟩, AList.empty_union] at hservice
      exact hcore.saved rec hrec hpid service hservice
    · intro service hservice
      rcases hcore.current service hservice with hmem | ⟨target, hat'⟩
      · exact .inl (AList.mem_union.2 (.inr hmem))
      · cases hat.symm.trans hat'

/-- A core that writes its record. -/
theorem ok_save {owned : Record} (pc : Pc) (current : Option Service) (hlock : w.host.lock = none)
    (hheld : core.owned.PID ≠ 0) (hpid : owned.PID = p) (hvalues : Values userDns owned.Services)
    (hcovered : ∀ service ∈ core.owned.Services, service ∈ owned.Services) (halias : owned.Alias = core.owned.Alias)
    (hcurrent : ∀ service, current = some service → service ∈ owned.Services) (hpc : PcOk userDns userAlias
      (w.after p { core with owned := owned, pc := pc, current := current }
        { w.host with file := some owned })
      p { core with owned := owned, pc := pc, current := current }) :
    Ok userDns userAlias (w.after p { core with owned := owned, pc := pc, current := current }
        { w.host with file := some owned }) := by
  have hcore := hok.cores p core hp
  have hne := pid_ne_zero hok hp
  have hset : ∀ service, w.host.setBy service ≠ none → service ∈ owned.Services :=
    fun service hset => hcovered service (hcore.covered (.inl hheld) service hset)
  have hkept : w.host.aliasPresent = true → userAlias = true ∨ owned.Alias = true := by
    rw [halias]
    exact hcore.aliasKept (.inl hheld)
  have hflag : owned.Alias = true → userAlias = false := by
    rw [halias]
    exact hcore.flag
  have heffect : Effect userDns userAlias w p core { w.host with file := some owned } :=
    .save owned hlock hpid hheld hvalues hset hkept hflag
  refine ok_after hok hp heffect (fun _ => .inl (.inl hheld)) ?_ ?_ ?_
  · exact fun h => nomatch hlock.symm.trans h
  · exact fun hzero => absurd (hpid.symm.trans hzero) hne
  · exact coreOk_saved hpid hne rfl hvalues hset hkept hflag hcurrent hpc

theorem current_mem (hnot : ∀ target, core.pc ≠ .restoreSave (.follow target)) :
    ∀ service, core.current = some service → service ∈ core.owned.Services := by
  intro service hservice
  rcases (hok.cores p core hp).current service hservice with hmem | ⟨target, hat⟩
  · exact hmem
  · exact absurd hat (hnot target)

theorem ok_prepareSave (hat : core.pc = .prepareSave) : CommandOk userDns userAlias w p core ok order := by
  have hcore := hok.cores p core hp
  have hheld := hcore.pc
  rw [PcOk, hat] at hheld
  have hnot := not_follow hat (by simp)
  simp only [CommandOk, command, hat]
  split
  · exact ok_idle hok hp hnot (by rw [hat]; rfl)
  · split
    · exact ok_same hok hp
    · next hlock =>
      rw [not_ne_iff] at hlock
      have hpid := held_pid hok hp hheld
      exact ok_save hok hp .prepareAdd core.current hlock hheld hpid hcore.values (fun _ h => h) rfl (current_mem hok hp hnot)
        ⟨hheld, core.owned, rfl, hpid, rfl⟩

theorem ok_prepareAdd (hat : core.pc = .prepareAdd) : CommandOk userDns userAlias w p core ok order := by
  have hcore := hok.cores p core hp
  have hpc := hcore.pc
  rw [PcOk, hat] at hpc
  obtain ⟨hheld, rec, hrec, hpid, hflag⟩ := hpc
  have hnot := not_follow hat (by simp)
  have hlocked : core.pc.locked = false := hat ▸ rfl
  simp only [CommandOk, command, hat]
  cases hadd : core.owned.Alias && ok with
  | false =>
    have hhost : { w.host with aliasPresent := w.host.aliasPresent || false } = w.host := by
      rw [Bool.or_false]
    rw [hhost]
    exact ok_idle hok hp hnot hlocked
  | true =>
    have hown : core.owned.Alias = true := (Bool.and_eq_true_iff.1 hadd).1
    have hhost : { w.host with aliasPresent := w.host.aliasPresent || true } = { w.host with aliasPresent := true } := by
      rw [Bool.or_true]
    rw [hhost]
    exact ok_move hok hp (.aliasOn rec hrec hpid (hflag.trans hown) hheld) hnot (by rintro ⟨⟩) (fun h => absurd h (not_locked hok hp hlocked))
      (fun _ _ => Iff.rfl) (fun _ h => .inl h) (fun _ => .inr hown) trivial

/-! ## `pointLocked` -/

/-- What is read of a service that has no record yet are the user's servers. -/
theorem ok_pointRead (huser : ∀ service, userDns service ≠ [Address]) (hat : core.pc = .pointRead service) :
    CommandOk userDns userAlias w p core ok order := by
  have hcore := hok.cores p core hp
  have hpc := hcore.pc
  rw [PcOk, hat] at hpc
  obtain ⟨hmonitor, hcurrent, hnew⟩ := hpc
  have hnot := not_follow hat (by simp)
  have hlocked : core.pc.locked = false := hat ▸ rfl
  have hread : w.host.dns service = userDns service := by
    apply hok.shared.back
    by_contra hset
    exact hnew (hcore.covered (.inr (hcore.monitored hmonitor)) service hset)
  simp only [CommandOk, command, hat]
  split
  · exact ok_idle hok hp hnot hlocked
  · rw [hread, if_neg (huser service)]
    exact ok_goto hok hp hnot (by rintro ⟨⟩) (fun h => absurd h (not_locked hok hp hlocked)) ⟨hmonitor, hcurrent, rfl⟩

/-- The user's servers are recorded before the service is pointed anywhere. -/
theorem ok_pointSave {previous : Servers} (hat : core.pc = .pointSave service previous) : CommandOk userDns userAlias w p core ok order := by
  have hcore := hok.cores p core hp
  have hpc := hcore.pc
  rw [PcOk, hat] at hpc
  obtain ⟨hmonitor, hcurrent, rfl⟩ := hpc
  have hnot := not_follow hat (by simp)
  simp only [CommandOk, command, hat]
  split
  · exact ok_idle hok hp hnot (by rw [hat]; rfl)
  · split
    · exact ok_same hok hp
    · next hlock =>
      rw [not_ne_iff] at hlock
      have hheld := held_of_monitor hok hp hmonitor
      refine ok_save hok hp (.pointSet service) core.current hlock hheld
        (held_pid hok hp hheld) ?_ (fun _ h => (AList.mem_insert _).2 (.inr h)) rfl ?_
        ⟨hmonitor, hcurrent, (AList.mem_insert _).2 (.inl rfl)⟩
      · intro other servers hservers
        by_cases hsame : other = service
        · subst hsame
          rw [AList.lookup_insert] at hservers
          exact (Option.some.inj hservers).symm
        · rw [AList.lookup_insert_ne hsame] at hservers
          exact hcore.values other servers hservers
      · exact fun other h => (AList.mem_insert _).2 (.inr (current_mem hok hp hnot other h))

/-- The service is pointed at `Address`, and its predecessor is next. -/
theorem ok_pointSet (hat : core.pc = .pointSet service) : CommandOk userDns userAlias w p core ok order := by
  have hcore := hok.cores p core hp
  have hpc := hcore.pc
  rw [PcOk, hat] at hpc
  obtain ⟨hmonitor, hnew, hmem⟩ := hpc
  have hnot := not_follow hat (by simp)
  have hlocked : core.pc.locked = false := hat ▸ rfl
  have hheld := held_of_monitor hok hp hmonitor
  obtain ⟨rec, hrec, hpid⟩ := hcore.monitored hmonitor
  have heffect : Effect userDns userAlias w p core (w.host.point p service) :=
    .point service rec hrec hpid (hcore.saved rec hrec hpid service hmem) hheld
  have hset : ∀ other, (w.host.point p service).setBy other ≠ none → w.host.setBy other ≠ none ∨ other ∈ core.owned.Services := by
    intro other hother
    by_cases hsame : other = service
    · exact .inr (hsame ▸ hmem)
    · exact .inl (by simpa only [Host.point, Function.update_of_ne hsame] using hother)
  have hunlocked : (w.host.point p service).lock ≠ some p := not_locked hok hp hlocked
  simp only [CommandOk, command, hat]
  split
  · exact ok_idle hok hp hnot hlocked
  · cases hcurrent : core.current with
    | none =>
      refine ok_after hok hp heffect (fun _ => .inl (.inl hheld)) (fun h => absurd h hunlocked) (fun hzero => .inl hzero) ?_
      refine coreOk_moved hcore (fun _ _ => Iff.rfl) hset (fun h => .inl h) (fun hzero => absurd hzero hheld) ?_ trivial
      rintro other ⟨⟩
      exact .inl hmem
    | some previous =>
      rw [hcurrent] at hnew
      refine ok_move hok hp heffect hnot (by rintro ⟨⟩) (fun h => absurd h hunlocked) (fun _ _ => Iff.rfl) hset (fun h => .inl h) ?_
      refine ⟨hheld, current_mem hok hp hnot previous hcurrent, hmem, ?_⟩
      rintro rfl
      exact hnew rfl

/-! ## `restoreLocked` and `Release` -/

/-- What follows a `restoreLocked` that changed nothing else. -/
theorem ok_restoredUnclean (hlocked : core.pc.locked = false) (hnext : match next with
      | .follow target => core.owned.PID ≠ 0 ∧ target ∈ core.owned.Services
      | .release todo _ => Releasing core ∧ LoopOk core todo false) :
    Ok userDns userAlias (w.after p (restoredUnclean core next) w.host) := by
  have hcore := hok.cores p core hp
  have hunlocked := not_locked hok hp hlocked
  cases next with
  | follow target =>
    obtain ⟨hheld, hmem⟩ := hnext
    refine ok_after hok hp .none (fun _ => .inl (.inl hheld)) (fun h => absurd h hunlocked) (fun hzero => .inl hzero) ?_
    refine coreOk_moved hcore (fun _ _ => Iff.rfl) (fun _ h => .inl h) (fun h => .inl h) (fun hzero => absurd hzero hheld) ?_ trivial
    rintro other ⟨⟩
    exact .inl hmem
  | release todo clean =>
    obtain ⟨hreleasing, hloop⟩ := hnext
    have hpc : PcOk userDns userAlias (w.after p (releaseLoop core todo false) w.host) p
        (releaseLoop core todo false) := pcOk_releaseLoop hreleasing hloop
    obtain ⟨pc, hpcEq, hpcLocked, -⟩ := releaseLoop_eq core todo false
    rw [restoredUnclean]
    rw [hpcEq] at hpc ⊢
    refine ok_after hok hp .none (fun _ => .inl (.inl hreleasing.pid)) (fun h => absurd h hunlocked) (fun hzero => .inl hzero) ?_
    refine coreOk_moved hcore (fun _ _ => Iff.rfl) (fun _ h => .inl h) (fun h => .inl h) (fun hzero => absurd hzero hreleasing.pid) ?_ hpc
    intro other hother
    rw [hreleasing.current] at hother
    cases hother

/-- A recorded service is put back, and its entry goes. -/
theorem ok_restoreSet (hat : core.pc = .restoreSet service next) : CommandOk userDns userAlias w p core ok order := by
  have hcore := hok.cores p core hp
  have hpc := hcore.pc
  rw [PcOk, hat] at hpc
  have hlocked : core.pc.locked = false := hat ▸ rfl
  have hunlocked := not_locked hok hp hlocked
  have hheld : core.owned.PID ≠ 0 := by
    cases next with
    | follow target => exact hpc.1
    | release todo clean => exact hpc.1.pid
  have hmem : service ∈ core.owned.Services := by
    cases next with
    | follow target => exact hpc.2.1
    | release todo clean => exact hpc.2.recorded service mem_cons_self
  simp only [CommandOk, command, hat]
  split
  · apply ok_restoredUnclean hok hp hlocked
    cases next with
    | follow target => exact ⟨hheld, hpc.2.2.1⟩
    | release todo clean => exact ⟨hpc.1, loopOk_tail hpc.2⟩
  · obtain ⟨servers, hservers⟩ := Option.isSome_iff_exists.1 (AList.lookup_isSome.2 hmem)
    obtain rfl := hcore.values service servers hservers
    rw [hservers, Option.getD_some]
    have hpid := held_pid hok hp hheld
    refine ok_after hok hp (.back service) (fun _ => .inl (.inl hheld)) (fun h => absurd h hunlocked) (fun hzero => .inl hzero) ?_
    refine ⟨hcore.pid, fun hzero => absurd hzero hheld, values_erase hcore.values service, ?_, hcore.aliasKept,
      hcore.flag, ?_, hcore.monitored, ?_, ?_⟩
    · intro hown other hother
      obtain ⟨hne, hbefore⟩ := setBack_set hother
      exact AList.mem_erase.2 ⟨hne, hcore.covered hown other hbefore⟩
    · intro rec hrec hpidRec other hother
      exact hcore.saved rec hrec hpidRec other (AList.mem_erase.1 hother).2
    · intro other hother
      cases next with
      | follow target => exact .inr ⟨target, rfl⟩
      | release todo clean =>
        rw [hpc.1.current] at hother
        cases hother
    · cases next with
      | follow target => exact ⟨hheld, AList.mem_erase.2 ⟨hpc.2.2.2, hpc.2.2.1⟩⟩
      | release todo clean =>
        obtain ⟨hreleasing, hloop⟩ := hpc
        obtain ⟨hnotMem, hnodup⟩ := nodup_cons.1 hloop.once
        refine ⟨⟨hheld, hreleasing.monitor, hreleasing.current⟩, hnodup, ?_, ?_⟩
        · intro other hother
          refine AList.mem_erase.2 ⟨?_, hloop.recorded other (mem_cons_of_mem _ hother)⟩
          rintro rfl
          exact hnotMem hother
        · intro hclean other hother
          obtain ⟨hne, hbefore⟩ := AList.mem_erase.1 hother
          exact (mem_cons.1 (hloop.all hclean other hbefore)).resolve_left hne

theorem ok_restoreSave (hat : core.pc = .restoreSave next) : CommandOk userDns userAlias w p core ok order := by
  have hcore := hok.cores p core hp
  have hpc := hcore.pc
  rw [PcOk, hat] at hpc
  have hlocked : core.pc.locked = false := hat ▸ rfl
  simp only [CommandOk, command, hat]
  split
  · apply ok_restoredUnclean hok hp hlocked
    cases next with
    | follow target => exact hpc
    | release todo clean => exact ⟨hpc.1, loopOk_unclean hpc.2⟩
  · split
    · exact ok_same hok hp
    · next hlock =>
      rw [not_ne_iff] at hlock
      cases next with
      | follow target =>
        refine ok_save hok hp .idle (some target) hlock hpc.1 (held_pid hok hp hpc.1) hcore.values (fun _ h => h) rfl ?_ trivial
        rintro other ⟨⟩
        exact hpc.2
      | release todo clean =>
        obtain ⟨hreleasing, hloop⟩ := hpc
        have hpcLoop : PcOk userDns userAlias (w.after p (releaseLoop core todo clean) { w.host with file := some core.owned }) p
            (releaseLoop core todo clean) := pcOk_releaseLoop hreleasing hloop
        rw [restored]
        obtain ⟨pc, hpcEq, -, -⟩ := releaseLoop_eq core todo clean
        rw [hpcEq] at hpcLoop ⊢
        refine ok_save hok hp pc core.current hlock hreleasing.pid (held_pid hok hp hreleasing.pid) hcore.values (fun _ h => h) rfl ?_ hpcLoop
        intro other hother
        rw [hreleasing.current] at hother
        cases hother

/-- The alias goes, where the core added it. -/
theorem ok_releaseAlias (hat : core.pc = .releaseAlias clean) (hmeets : Meets w (.next p ok order)) :
    CommandOk userDns userAlias w p core ok order := by
  have hcore := hok.cores p core hp
  have hpc := hcore.pc
  rw [PcOk, hat] at hpc
  obtain ⟨hreleasing, hclean⟩ := hpc
  have hheld := hreleasing.pid
  have hlocked : core.pc.locked = false := hat ▸ rfl
  have hunlocked := not_locked hok hp hlocked
  have heffect : Effect userDns userAlias w p core { w.host with aliasPresent := w.host.aliasPresent && !(core.owned.Alias && ok) } := by
    cases hflag : core.owned.Alias && ok with
    | false =>
      rw [Bool.not_false, Bool.and_true]
      exact .none
    | true =>
      rw [Bool.not_true, Bool.and_false]
      exact .aliasOff (hcore.flag (Bool.and_eq_true_iff.1 hflag).1)
  -- What is there now is the user's.
  have hkept : (w.host.aliasPresent && !(core.owned.Alias && ok)) = true → userAlias = true := by
    intro hpresent
    obtain ⟨hbefore, hremoved⟩ := Bool.and_eq_true_iff.1 hpresent
    rcases hcore.aliasKept (.inl hheld) hbefore with huser | hflag
    · exact huser
    · have hok' : ok = true := by
        rcases hmeets with hok' | hmeets
        · exact hok'
        · have hhere := hmeets core hp
          rw [hat] at hhere
          exact absurd (hflag.symm.trans hhere) (by decide)
      rw [hflag, hok'] at hremoved
      cases hremoved
  simp only [CommandOk, command, hat]
  refine ok_after hok hp heffect (fun _ => .inl (.inl hheld)) (fun h => absurd h hunlocked) (fun hzero => .inl hzero) ?_
  refine ⟨hcore.pid, fun hzero => absurd hzero hheld, hcore.values, hcore.covered, ?_, ?_, hcore.saved, hcore.monitored, ?_, ?_⟩
  · exact fun _ hpresent => .inl (hkept hpresent)
  · simp
  · intro service hservice
    have hnone := hreleasing.current
    rw [hnone] at hservice
    cases hservice
  · have hreleasing' : ∀ pc, Releasing { core with owned := { core.owned with Alias := false }, pc := pc } :=
      fun pc => ⟨hheld, hreleasing.monitor, hreleasing.current⟩
    split
    · next hempty => exact ⟨hreleasing' _, rfl, hempty⟩
    · next hleft =>
      refine ⟨hreleasing' _, rfl, ?_⟩
      cases clean with
      | false => exact Bool.false_and _
      | true => exact absurd (hclean rfl) hleft

theorem ok_releaseSave (hat : core.pc = .releaseSave clean) : CommandOk userDns userAlias w p core ok order := by
  have hcore := hok.cores p core hp
  have hpc := hcore.pc
  rw [PcOk, hat] at hpc
  have hheld := hpc.1.pid
  have hnot := not_follow hat (by simp)
  simp only [CommandOk, command, hat]
  split
  · exact ok_idle hok hp hnot (by rw [hat]; rfl)
  · split
    · exact ok_same hok hp
    · next hlock =>
      rw [not_ne_iff] at hlock
      exact ok_save hok hp .idle core.current hlock hheld (held_pid hok hp hheld) hcore.values (fun _ h => h) rfl (current_mem hok hp hnot) trivial

/-- Nothing is pointed at `Address` any more when the record goes. -/
theorem back_of_releaseRemove (hat : core.pc = .releaseRemove clean) : (∀ service, w.host.setBy service = none) ∧
    (w.host.aliasPresent = true → userAlias = true) := by
  have hcore := hok.cores p core hp
  have hpc := hcore.pc
  rw [PcOk, hat] at hpc
  obtain ⟨hreleasing, hflag, hempty⟩ := hpc
  constructor
  · intro service
    by_contra hset
    have hmem := hcore.covered (.inl hreleasing.pid) service hset
    rw [AList.mem_keys, hempty] at hmem
    cases hmem
  · intro hpresent
    rcases hcore.aliasKept (.inl hreleasing.pid) hpresent with huser | hown
    · exact huser
    · rw [hflag] at hown
      cases hown

theorem ok_releaseRemove (hat : core.pc = .releaseRemove clean) : CommandOk userDns userAlias w p core ok order := by
  have hcore := hok.cores p core hp
  obtain ⟨hback, halias⟩ := back_of_releaseRemove hok hp hat
  have hpc := hcore.pc
  rw [PcOk, hat] at hpc
  obtain ⟨hreleasing, -, -⟩ := hpc
  have hlocked : core.pc.locked = false := hat ▸ rfl
  have hunlocked := not_locked hok hp hlocked
  -- The core is as it was when it started.
  have hdone : ∀ host : Host, Effect userDns userAlias w p core host →
      (∀ service, host.setBy service = none) → (host.aliasPresent = true → userAlias = true) →
      host.lock = w.host.lock →
      Ok userDns userAlias (w.after p { core with owned := .empty, pc := .idle } host) := by
    intro host heffect hback halias hlock
    refine ok_after hok hp heffect ?_ ?_ (fun _ => .inr hback) ?_
    · rintro (hheld | hpreparing)
      · exact absurd rfl hheld
      · cases hpreparing
    · intro h
      rw [hlock] at h
      exact absurd h hunlocked
    · refine ⟨.inl rfl, fun _ => ⟨rfl, hreleasing.monitor, hreleasing.current⟩, ?_, ?_, ?_, ?_, ?_, ?_, ?_, trivial⟩
      · rintro _ _ ⟨⟩
      · exact fun _ service hset => absurd (hback service) hset
      · exact fun _ hpresent => .inl (halias hpresent)
      · rintro ⟨⟩
      · exact fun _ _ _ service hservice => absurd hservice (AList.notMem_empty service)
      · intro hmonitor
        have hno := hreleasing.monitor
        exact absurd (hno.symm.trans hmonitor) Bool.false_ne_true
      · intro service hservice
        have hnone := hreleasing.current
        cases hnone.symm.trans hservice
  simp only [CommandOk, command, hat]
  split
  · exact hdone w.host .none hback halias rfl
  · split
    · exact ok_same hok hp
    · next hlock =>
      rw [not_ne_iff] at hlock
      cases hfile : w.host.file with
      | none =>
        simp only
        rw [← hfile]
        exact hdone w.host .none hback halias rfl
      | some stored =>
        simp only
        split
        · exact hdone _ (.remove hlock hreleasing.pid hback halias) hback halias rfl
        · rw [← hfile]
          exact hdone w.host .none hback halias rfl

end

/-! ## Any command -/

/-- Every command keeps the invariant. -/
theorem ok_command (huser : ∀ service, userDns service ≠ [Address]) (hok : Ok userDns userAlias w)
    (hp : w.procs p = .live core) (hmeets : Meets w (.next p ok order)) :
    let r := command w.alive p w.host core ok order
    Ok userDns userAlias (w.after p r.2 r.1) := by
  cases hat : core.pc with
  | idle =>
    simp only [command, hat]
    exact ok_same hok hp
  | load prepare => exact ok_load hok hp hat hmeets
  | replay prepare stored service todo => exact ok_replay hok hp hat
  | replayAlias prepare stored => exact ok_replayAlias hok hp hat hmeets
  | replayWrite prepare stored => exact ok_replayWrite hok hp hat
  | merge leftovers => exact ok_merge hok hp hat
  | prepareSave => exact ok_prepareSave hok hp hat
  | prepareAdd => exact ok_prepareAdd hok hp hat
  | pointRead service => exact ok_pointRead hok hp huser hat
  | pointSave service previous => exact ok_pointSave hok hp hat
  | pointSet service => exact ok_pointSet hok hp hat
  | restoreSet service next => exact ok_restoreSet hok hp hat
  | restoreSave next => exact ok_restoreSave hok hp hat
  | releaseAlias clean => exact ok_releaseAlias hok hp hat hmeets
  | releaseSave clean => exact ok_releaseSave hok hp hat
  | releaseRemove clean => exact ok_releaseRemove hok hp hat

/-! ## Calls -/

/-- A core that has been called, with what a call may change. -/
theorem ok_called {monitor : Bool} {current : Option Service} (gen : Nat)
    (hok : Ok userDns userAlias w) (hp : w.procs p = .live core) (hidle : core.pc = .idle)
    (hholds : pc.preparing = true → Alone w p) (hmonitor : monitor = true → w.host.FileOf p ∧ core.owned.PID ≠ 0)
    (hcurrent : current = core.current ∨ current = none)
    (hpc : ∀ w' : World, w'.host = w.host → PcOk userDns userAlias w' p
      { core with monitor := monitor, current := current, followGen := gen, pc := pc }) :
    Ok userDns userAlias (w.after p { core with monitor := monitor, current := current, followGen := gen, pc := pc }
        w.host) := by
  have hcore := hok.cores p core hp
  have hlocked : core.pc.locked = false := hidle ▸ rfl
  have hnot := not_follow hidle (by simp)
  refine ok_after hok hp .none ?_ (fun h => absurd h (not_locked hok hp hlocked)) (fun hzero => .inl hzero) ?_
  · rintro (hpid | hpreparing)
    · exact .inl (.inl hpid)
    · exact .inr (hholds hpreparing)
  · refine ⟨hcore.pid, ?_, hcore.values, hcore.covered, hcore.aliasKept, hcore.flag, hcore.saved, fun h => (hmonitor h).1, ?_, hpc _ rfl⟩
    · intro hzero
      obtain ⟨hempty, -, hnone⟩ := hcore.fresh hzero
      refine ⟨hempty, ?_, ?_⟩
      · cases monitor with
        | false => rfl
        | true => exact absurd hzero (hmonitor rfl).2
      · rcases hcurrent with rfl | rfl
        · exact hnone
        · rfl
    · intro service hservice
      rcases hcurrent with rfl | rfl
      · exact .inl (current_mem hok hp hnot service hservice)
      · cases hservice

/-- `followLocked`, called with a monitor. -/
theorem ok_followLocked (gen : Nat) (service : Option Service) (hok : Ok userDns userAlias w)
    (hp : w.procs p = .live core) (hidle : core.pc = .idle) (hfile : w.host.FileOf p) (hheld : core.owned.PID ≠ 0) :
    Ok userDns userAlias (w.after p (followLocked { core with monitor := true, followGen := gen } service) w.host) := by
  have hcall : ∀ pc : Pc, pc.preparing = false → (∀ w' : World, w'.host = w.host → PcOk userDns userAlias w' p
        { core with monitor := true, followGen := gen, pc := pc }) →
      Ok userDns userAlias (w.after p { core with monitor := true, followGen := gen, pc := pc } w.host) := by
    intro pc hpreparing hpc
    refine ok_called _ hok hp hidle ?_ (fun _ => ⟨hfile, hheld⟩) (.inl rfl) hpc
    intro h
    rw [hpreparing] at h
    cases h
  have hstay := hcall .idle rfl fun _ _ => trivial
  have hsame : { core with monitor := true, followGen := gen, pc := .idle } = { core with monitor := true, followGen := gen } := by
    rw [← hidle]
  rw [hsame] at hstay
  cases service with
  | none => exact hstay
  | some service =>
    rw [followLocked]
    split
    · exact hstay
    · next hnew =>
      split
      · next hmem => exact hcall (.pointSet service) rfl fun _ _ => ⟨rfl, hnew, hmem⟩
      · next hmem => exact hcall (.pointRead service) rfl fun _ _ => ⟨rfl, hnew, hmem⟩

/-- Every call keeps the invariant. -/
theorem ok_begin (hok : Ok userDns userAlias w) (hp : w.procs p = .live core)
    (hidle : core.pc = .idle) {call : Call} (hmeets : Meets w (.call p call)) : Ok userDns userAlias (w.after p (begin core call) w.host) := by
  have hcore := hok.cores p core hp
  have hkeep : ∀ pc : Pc, (pc.preparing = true → Alone w p) → (∀ w' : World, w'.host = w.host → PcOk userDns userAlias w' p (core.goto pc)) →
      Ok userDns userAlias (w.after p (core.goto pc) w.host) := by
    intro pc hholds hpc
    refine ok_called core.followGen hok hp hidle hholds ?_ (.inl rfl) hpc
    intro hmonitor
    exact ⟨hcore.monitored hmonitor, held_of_monitor hok hp hmonitor⟩
  cases call with
  | Prepare =>
    rw [begin]
    split
    · exact hkeep (.load true) (fun _ => hmeets) fun _ _ => trivial
    · exact ok_same hok hp
  | RestoreStale =>
    rw [begin]
    split
    · exact hkeep (.load false) nofun fun _ _ => trivial
    · exact ok_same hok hp
  | Apply service =>
    rw [begin]
    split
    · exact ok_same hok hp
    · next hheld => exact ok_followLocked _ service hok hp hidle hmeets hheld
  | follow gen service =>
    rw [begin]
    split
    · exact ok_same hok hp
    · next hnot =>
      rw [not_or, Bool.not_eq_false] at hnot
      have hmonitor := hnot.2
      have hsame : { core with monitor := true, followGen := core.followGen } = core := by
        rw [← hmonitor]
      have hfollow := ok_followLocked core.followGen service hok hp hidle (hcore.monitored hmonitor) (held_of_monitor hok hp hmonitor)
      rw [hsame] at hfollow
      exact hfollow
  | Release order =>
    have hcall : ∀ pc : Pc, pc.preparing = false → (∀ w' : World, w'.host = w.host → PcOk userDns userAlias w' p
          { core with
            monitor := false, current := none, followGen := core.followGen + 1, pc := pc }) →
        Ok userDns userAlias (w.after p
            { core with
              monitor := false, current := none, followGen := core.followGen + 1, pc := pc }
            w.host) := by
      intro pc hpreparing hpc
      refine ok_called _ hok hp hidle ?_ nofun (.inr rfl) hpc
      intro h
      rw [hpreparing] at h
      cases h
    rw [begin]
    split
    · have hstay := hcall .idle rfl fun _ _ => trivial
      rw [← hidle] at hstay
      exact hstay
    · next hheld =>
      split
      · next horder =>
        obtain ⟨pc, hpcEq, -, hpreparing⟩ := releaseLoop_eq
          { core with monitor := false, current := none, followGen := core.followGen + 1 } order true
        have hloop : LoopOk { core with monitor := false, current := none, followGen := core.followGen + 1 } order true :=
          ⟨horder.nodup_iff.2 core.owned.Services.keys_nodup, fun x hx => horder.mem_iff.1 hx, fun _ x hx => horder.mem_iff.2 hx⟩
        have hpc : ∀ w' : World, PcOk userDns userAlias w' p (releaseLoop
            { core with monitor := false, current := none, followGen := core.followGen + 1 }
            order true) :=
          fun w' => pcOk_releaseLoop ⟨hheld, rfl, rfl⟩ hloop
        rw [hpcEq] at hpc ⊢
        exact hcall pc hpreparing fun w' _ => hpc w'
      · exact ok_same hok hp

end Commands

end Throne.Core.SysDns
