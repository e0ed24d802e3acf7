import Throne.Core.SysDns.SystemDnsSteps

/-!
# Runs of the cores

Every event of a run whose steps meet the condition keeps the invariant. What is claimed of the user's
servers is read off it (`dns_kept`), and a run in which two cores overlap shows that the condition is
needed (`overlap_loses`).
-/

namespace Throne.Core.SysDns

open Lib.Runs Lib.Texts

section Runs

variable {userDns : Service → Servers} {userAlias : Bool}

theorem ok_init : Ok userDns userAlias (World.init userDns userAlias) where
  shared :=
    { back := fun _ _ => rfl
      values := fun _ h => nomatch h
      covered := fun _ h => absurd rfl h
      aliasCovered := .inl
      usersAlias := id
      aliasFlag := fun _ h => nomatch h }
  procs :=
    { zero := rfl
      lock := fun _ h => nomatch h
      born := fun _ h => nomatch h
      one := fun _ _ _ _ h => nomatch h
      holder := fun _ _ _ _ h => nomatch h
      setBy := fun _ _ _ h => nomatch h }
  cores := fun _ _ h => nomatch h

variable {w : World}

theorem setBy_taken {host : Host} {p : Nat} {service : Service} : (host.taken p).setBy service ≠ none ↔ host.setBy service ≠ none := by
  simp only [Host.taken]
  split
  · next hset => simp [hset]
  · rfl

theorem ok_start {p : Nat} (root : Bool) (hok : Ok userDns userAlias w) (hp : p ≠ 0)
    (hnew : ∀ core, w.procs p ≠ .live core) (hnoFile : ¬w.host.FileOf p) : Ok userDns userAlias (w.started p root) := by
  have hself : (w.started p root).procs p = .live (.fresh root) := Function.update_self _ _ _
  have hother : ∀ q, q ≠ p → (w.started p root).procs q = w.procs q := fun q hne => Function.update_of_ne hne _ _
  -- The new core holds nothing, and no record is its own.
  have hlive : ∀ q core, (w.started p root).procs q = .live core → q = p ∧ core = .fresh root ∨ q ≠ p ∧ w.procs q = .live core := by
    intro q core hq
    by_cases hsame : q = p
    · subst hsame
      rw [hself] at hq
      exact .inl ⟨rfl, (Process.live.inj hq).symm⟩
    · exact .inr ⟨hsame, (hother q hsame).symm.trans hq⟩
  have hfree : ¬(Memory.fresh root).Holds := by
    rintro (hpid | hpreparing)
    · exact hpid rfl
    · cases hpreparing
  have hshared := hok.shared
  refine ⟨⟨fun service hset => hshared.back service ?_, hshared.values,
    fun service hset => hshared.covered service (setBy_taken.1 hset), hshared.aliasCovered, hshared.usersAlias,
    hshared.aliasFlag⟩, ⟨?_, ?_, ?_, ?_, ?_, ?_⟩, ?_⟩
  · by_contra hne
    exact setBy_taken.2 hne hset
  · rw [hother 0 hp.symm]
    exact hok.procs.zero
  · intro q hq
    obtain ⟨core, hcore, hlocked⟩ := hok.procs.lock q hq
    refine ⟨core, ?_, hlocked⟩
    rw [hother q]
    · exact hcore
    · rintro rfl
      exact hnew core hcore
  · intro rec hrec
    rw [hother rec.PID fun hsame => hnoFile ⟨rec, hrec, hsame⟩]
    exact hok.procs.born rec hrec
  · intro q q' core core' hq hq' hheld hheld'
    rcases hlive q core hq with ⟨-, rfl⟩ | ⟨-, hbefore⟩
    · exact absurd hheld hfree
    · rcases hlive q' core' hq' with ⟨-, rfl⟩ | ⟨-, hbefore'⟩
      · exact absurd hheld' hfree
      · exact hok.procs.one q q' core core' hbefore hbefore' hheld hheld'
  · intro q q' core core' hq hheld hq' hfile
    rcases hlive q core hq with ⟨-, rfl⟩ | ⟨-, hbefore⟩
    · exact absurd hheld hfree
    · rcases hlive q' core' hq' with ⟨rfl, -⟩ | ⟨-, hbefore'⟩
      · exact absurd hfile hnoFile
      · exact hok.procs.holder q q' core core' hbefore hheld hbefore' hfile
  · intro service q core hq hcore
    -- What a core of that number had pointed is nobody's now.
    simp only [World.started, Host.taken] at hq
    split at hq
    · rcases hlive q core hcore with ⟨rfl, -⟩ | ⟨-, hbefore⟩
      · exact absurd (Option.some.inj hq).symm hp
      · obtain rfl := Option.some.inj hq
        exact nomatch hok.procs.zero.symm.trans hbefore
    · next hset =>
      rcases hlive q core hcore with ⟨rfl, -⟩ | ⟨-, hbefore⟩
      · exact absurd hq hset
      · exact hok.procs.setBy service q core hq hbefore
  · intro q core hq
    rcases hlive q core hq with ⟨rfl, rfl⟩ | ⟨hne, hbefore⟩
    · have hnone : ¬((Memory.fresh root).owned.PID ≠ 0 ∨ (w.started q root).host.FileOf q) :=
        not_or.2 ⟨not_not.2 rfl, hnoFile⟩
      exact ⟨.inl rfl, fun _ => ⟨rfl, rfl, rfl⟩, nofun, fun h => absurd h hnone, fun h => absurd h hnone, nofun,
        fun rec hrec hpid => absurd ⟨rec, hrec, hpid⟩ hnoFile, nofun, nofun, trivial⟩
    · refine coreOk_quiet (hok.cores q core hbefore) (fun _ _ => Iff.rfl) (fun _ => setBy_taken.1) (fun h => h) ?_
      intro stored h
      refine ⟨h.lock, h.file, ?_, h.values, fun service hset => h.covered service (setBy_taken.1 hset), h.aliasKept, h.flag⟩
      rw [hother stored.PID]
      · exact h.dead
      · rintro rfl
        exact hnoFile h.file

theorem ok_kill {p : Nat} {core : Memory} (hok : Ok userDns userAlias w) (hp : w.procs p = .live core) : Ok userDns userAlias { w.setProc p .dead with
    host := { w.host with lock := if w.host.lock = some p then none else w.host.lock } } := by
  have hself : (w.setProc p .dead).procs p = .dead := Function.update_self _ _ _
  have hlive : ∀ q core, (w.setProc p .dead).procs q = .live core → q ≠ p ∧ w.procs q = .live core := by
    intro q core hq
    have hne : q ≠ p := by
      rintro rfl
      exact nomatch hself.symm.trans hq
    exact ⟨hne, (Function.update_of_ne hne _ _).symm.trans hq⟩
  have hother : ∀ q, q ≠ p → (w.setProc p .dead).procs q = w.procs q :=
    fun q hne => Function.update_of_ne hne _ _
  have hdead : ∀ q, w.procs q = .dead → (w.setProc p .dead).procs q = .dead := by
    intro q hq
    by_cases hsame : q = p
    · rw [hsame, hself]
    · exact (hother q hsame).trans hq
  have hborn : ∀ q, w.procs q ≠ .unborn → (w.setProc p .dead).procs q ≠ .unborn := by
    intro q hq
    by_cases hsame : q = p
    · rw [hsame, hself]
      exact nofun
    · rw [hother q hsame]
      exact hq
  have hshared := hok.shared
  refine ⟨⟨hshared.back, hshared.values, hshared.covered, hshared.aliasCovered, hshared.usersAlias, hshared.aliasFlag⟩, ?_, ?_⟩
  · refine ⟨?_, ?_, fun rec hrec => hborn _ (hok.procs.born rec hrec), ?_, ?_, ?_⟩
    · have hne : (0 : Nat) ≠ p := by
        rintro rfl
        exact nomatch hok.procs.zero.symm.trans hp
      exact (hother 0 hne).trans hok.procs.zero
    · intro q hq
      simp only at hq
      split at hq
      · cases hq
      · next hlock =>
        obtain ⟨other, hq', hlocked⟩ := hok.procs.lock q hq
        refine ⟨other, ?_, hlocked⟩
        rw [← hq']
        apply hother
        rintro rfl
        exact hlock hq
    · intro q q' core core' hq hq'
      exact hok.procs.one q q' core core' (hlive q core hq).2 (hlive q' core' hq').2
    · intro q q' core core' hq hheld hq'
      exact hok.procs.holder q q' core core' (hlive q core hq).2 hheld (hlive q' core' hq').2
    · intro service q other hq hother
      exact hok.procs.setBy service q other hq (hlive q other hother).2
  · intro q other hq
    obtain ⟨hne, hbefore⟩ := hlive q other hq
    refine coreOk_quiet (hok.cores q other hbefore) (fun _ _ => Iff.rfl) (fun _ h => h) (fun h => h) ?_
    intro stored h
    refine ⟨?_, h.file, hdead _ h.dead, h.values, h.covered, h.aliasKept, h.flag⟩
    simp only
    rw [h.lock, if_neg]
    exact fun hsame => hne (Option.some.inj hsame)

/-- Every event of a run whose steps meet the condition keeps the invariant. -/
theorem ok_step (huser : ∀ service, userDns service ≠ [Address]) (w : World) (e : Event)
    (hok : Ok userDns userAlias w) (hmeets : Meets w e) : Ok userDns userAlias (step w e) := by
  cases e with
  | start p root =>
    rw [step]
    split
    · exact hok
    · next hnew =>
      split
      · exact hok
      · next hne => exact ok_start root hok hne hnew hmeets
  | kill p =>
    cases hp : w.procs p with
    | live core =>
      simp only [step, hp]
      exact ok_kill hok hp
    | _ =>
      simp only [step, hp]
      exact hok
  | call p call =>
    cases hp : w.procs p with
    | live core =>
      cases hidle : core.pc with
      | idle =>
        simp only [step, hp, hidle]
        exact ok_begin hok hp hidle hmeets
      | _ =>
        simp only [step, hp, hidle]
        exact hok
    | _ =>
      simp only [step, hp]
      exact hok
  | next p ok order =>
    cases hp : w.procs p with
    | live core =>
      simp only [step, hp]
      exact ok_command huser hok hp hmeets
    | _ =>
      simp only [step, hp]
      exact hok

/-! ## What is kept -/

/-- The user's servers of a service stand in the state file, or in the memory of a core that is alive. -/
def Recorded (userDns : Service → Servers) (w : World) (service : Service) : Prop :=
  (∃ rec, w.host.file = some rec ∧ rec.Services.lookup service = some (userDns service)) ∨
    ∃ p core, w.procs p = .live core ∧ core.owned.Services.lookup service = some (userDns service)

/-- The record of a dead core that is being replayed. -/
def Pc.stored : Pc → Option Record
  | .replay _ stored _ _ => some stored
  | .replayAlias _ stored => some stored
  | .replayWrite _ stored => some stored
  | _ => none

/-- The core of an event, where it takes a step. -/
def Event.actor : Event → Option Nat
  | .call p _ => some p
  | .next p _ _ => some p
  | _ => none

/-- The event is the last command of a `Release` of a core that had prepared, and none has failed. -/
def Released (w : World) : Event → Prop
  | .next p ok _ => ok = true ∧ w.host.lock = none ∧ ∃ core, w.procs p = .live core ∧
      (core.pc = .releaseRemove true ∨ core.pc = .releaseSave true)
  | _ => False

/-- What is claimed of a step. -/
structure Kept (userDns : Service → Servers) (userAlias : Bool) (w : World) (e : Event) : Prop where
  /-- What a core has pointed at `Address` is recorded. -/
  recorded : ∀ service, (step w e).host.setBy service ≠ none → Recorded userDns (step w e) service
  /-- What no core has pointed at `Address`, or has been put back, has the user's servers. -/
  back : ∀ service, (step w e).host.setBy service = none → (step w e).host.dns service = userDns service
  /-- The record of a living core is not replayed. -/
  replayed : ∀ p core stored, (step w e).procs p = .live core → core.pc.stored = some stored → (step w e).alive stored.PID = false
  /-- The record of a living core is not overwritten or removed by another. -/
  overwritten : ∀ p q core rec, e.actor = some p → q ≠ p → w.procs q = .live core →
    w.host.file = some rec → rec.PID = q → (step w e).host.file = some rec
  /-- After `Release` every service has the user's servers, and of the alias there is what the user had. -/
  released : Released w e → (∀ service, (step w e).host.dns service = userDns service) ∧ (step w e).host.aliasPresent = userAlias
  /-- `Release` of a core that has not prepared leaves nothing this core has pointed anywhere. -/
  unprepared : ∀ p core order, e = .call p (.Release order) → w.procs p = .live core →
    core.owned.PID = 0 → ∀ service, (step w e).host.setBy service ≠ some p

section

variable (hok : Ok userDns userAlias w)

include hok

theorem recorded_of_ok {service : Service} (hset : w.host.setBy service ≠ none) : Recorded userDns w service := by
  obtain ⟨rec, hrec, hmem⟩ := hok.shared.covered service hset
  obtain ⟨servers, hservers⟩ := Option.isSome_iff_exists.1 (AList.lookup_isSome.2 hmem)
  obtain rfl := hok.shared.values rec hrec service servers hservers
  exact .inl ⟨rec, hrec, hservers⟩

theorem replayed_of_ok {p : Nat} {core : Memory} {stored : Record}
    (hp : w.procs p = .live core) (hstored : core.pc.stored = some stored) : w.alive stored.PID = false := by
  have hreplay : ReplayOk userDns userAlias w p stored := by
    have hpc := (hok.cores p core hp).pc
    unfold PcOk at hpc
    split at hpc <;> rename_i hat <;> rw [hat] at hstored <;> first
      | exact Option.some.inj hstored ▸ hpc.1
      | exact Option.some.inj hstored ▸ hpc
      | cases hstored
  rw [World.alive, hreplay.dead]

/-- A command leaves the record of another living core alone. -/
theorem file_command {p q : Nat} {core other : Memory} (hp : w.procs p = .live core) (hne : q ≠ p) (hq : w.procs q = .live other) {rec : Record}
    (hrec : w.host.file = some rec) (hpid : rec.PID = q) (ok : Bool) (order : List Service) :
    (command w.alive p w.host core ok order).1.file = some rec := by
  have hfree : ¬core.Holds := fun hheld =>
    hne (hok.procs.holder p q core other hp hheld hq ⟨rec, hrec, hpid⟩)
  have hzero : ¬core.owned.PID ≠ 0 := fun h => hfree (.inl h)
  have hpc := (hok.cores p core hp).pc
  rw [PcOk] at hpc
  -- A core writes the file when it holds the DNS, or when it has replayed a dead core's record.
  cases hat : core.pc with
  | replayWrite prepare stored =>
    rw [hat] at hpc
    obtain ⟨hreplay, -⟩ := hpc
    obtain ⟨rec', hrec', hpid'⟩ := hreplay.file
    obtain rfl := Option.some.inj (hrec.symm.trans hrec')
    have hdead := hreplay.dead
    rw [← hpid', hpid, hq] at hdead
    cases hdead
  | prepareSave =>
    rw [hat] at hpc
    exact absurd hpc hzero
  | pointSave service previous =>
    rw [hat] at hpc
    exact absurd (held_of_monitor hok hp hpc.1) hzero
  | restoreSave next =>
    rw [hat] at hpc
    cases next with
    | follow target => exact absurd hpc.1 hzero
    | release todo clean => exact absurd hpc.1.pid hzero
  | releaseSave clean | releaseRemove clean =>
    rw [hat] at hpc
    exact absurd hpc.1.pid hzero
  | load prepare =>
    simp only [command, hat]
    split
    · exact hrec
    · split
      · exact hrec
      · rw [hrec]
        simp only
        split
        · exact hrec
        · split
          · rfl
          · exact hrec
  | _ =>
    simp only [command, hat]
    first
      | exact hrec
      | split <;> exact hrec

/-- What `Release` leaves when no command has failed. -/
theorem released_of_ok {e : Event} (hafter : Ok userDns userAlias (step w e)) (h : Released w e) :
    (∀ service, (step w e).host.dns service = userDns service) ∧ (step w e).host.aliasPresent = userAlias := by
  cases e with
  | next p ok order =>
    obtain ⟨rfl, hlock, core, hp, hat⟩ := h
    rcases hat with hat | hat
    · obtain ⟨hback, halias⟩ := back_of_releaseRemove hok hp hat
      have hsame : (step w (.next p true order)).host.setBy = w.host.setBy ∧
          (step w (.next p true order)).host.aliasPresent = w.host.aliasPresent := by
        simp only [step, hp, command, hat, hlock]
        exact ⟨rfl, rfl⟩
      obtain ⟨hset, hpresent⟩ := hsame
      constructor
      · intro service
        apply hafter.shared.back
        rw [hset]
        exact hback service
      · rw [hpresent]
        cases huser : userAlias with
        | true => exact hok.shared.usersAlias huser
        | false =>
          rw [← Bool.not_eq_true]
          intro hthere
          exact absurd ((halias hthere).symm.trans huser) (by decide)
    · have hpc := (hok.cores p core hp).pc
      rw [PcOk, hat] at hpc
      exact absurd hpc.2.2 (by decide)
  | start p root | kill p | call p call => exact absurd h id

/-- What is claimed of a step, from the invariant. -/
theorem kept_of_ok {e : Event} (hafter : Ok userDns userAlias (step w e)) : Kept userDns userAlias w e where
  recorded _ hset := recorded_of_ok hafter hset
  back := hafter.shared.back
  replayed _ _ _ hp hstored := replayed_of_ok hafter hp hstored
  overwritten p q core rec hactor hne hq hrec hpid := by
    cases e with
    | start p' root | kill p' => cases hactor
    | call p' call =>
      rw [step]
      split
      · split <;> exact hrec
      · exact hrec
    | next p' ok order =>
      obtain rfl := Option.some.inj hactor
      cases hp : w.procs p' with
      | live other =>
        simp only [step, hp]
        exact file_command hok hp hne hq hrec hpid ok order
      | _ =>
        simp only [step, hp]
        exact hrec
  released := released_of_ok hok hafter
  unprepared p core order he hp hzero service hset := by
    subst he
    have hsame : (step w (.call p (.Release order))).host = w.host := by
      simp only [step, hp]
      split <;> rfl
    rw [hsame] at hset
    exact hok.procs.setBy service p core hset hp hzero

end

/-- The user's DNS servers are kept in every run in which cores do not hold the DNS at the same time, none starts under
the number of the record in the file, a core that prepares can read the record there is, a core applies with its record in the file and the alias
can be removed, if no service's own servers are `Address`. -/
theorem dns_kept (userDns : Service → Servers) (userAlias : Bool) (huser : ∀ service, userDns service ≠ [Address]) (es : List Event)
    (hmeets : Along step Meets (World.init userDns userAlias) es) : Along step (Kept userDns userAlias) (World.init userDns userAlias) es :=
  along_mono (ok_step huser) (fun w e hok hmeets => kept_of_ok hok (ok_step huser w e hok hmeets)) es _ ok_init hmeets

end Runs

/-! ## Two cores at once -/

/-- A core prepares, points the service at `Address`, puts it back and is gone. -/
def session (service : Service) : List Event :=
  [.start 1 true, .call 1 .Prepare, .next 1 true [], .next 1 true [], .next 1 true [],
    .next 1 true [], .call 1 (.Apply (some service)), .next 1 true [], .next 1 true [],
    .next 1 true [], .call 1 (.Release [service]), .next 1 true [], .next 1 true [],
    .next 1 true [], .next 1 true [], .kill 1]

theorem dns_kept_session : Along step (Kept (fun _ => []) false) (World.init (fun _ => []) false) (session "Wi-Fi".toList) := by
  refine dns_kept (fun _ => []) false nofun _ ?_
  have halone : Alone (step (World.init (fun _ => []) false) (.start 1 true)) 1 := by
    intro q core hne hq
    have hunborn : (step (World.init (fun _ => []) false) (.start 1 true)).procs q = .unborn :=
      Function.update_of_ne hne _ _
    exact nomatch hunborn.symm.trans hq
  have hnoFile : ¬(World.init (fun _ => []) false).host.FileOf 1 := by
    rintro ⟨rec, hrec, -⟩
    cases hrec
  exact ⟨hnoFile, halone, .inl rfl, .inl rfl, .inl rfl, .inl rfl, ⟨_, rfl, rfl⟩, .inl rfl, .inl rfl,
    .inl rfl, trivial, .inl rfl, .inl rfl, .inl rfl, .inl rfl, trivial, trivial⟩

/-- A second core prepares while the first one has the service at `Address`, and the first one dies. -/
def overlap (service : Service) : List Event :=
  [.start 1 true, .call 1 .Prepare, .next 1 true [], .next 1 true [], .next 1 true [],
    .next 1 true [], .call 1 (.Apply (some service)), .next 1 true [], .next 1 true [],
    .next 1 true [], .start 2 true, .call 2 .Prepare, .next 2 true [], .next 2 true [],
    .next 2 true []]

/-- The core an event is about. -/
def Event.core : Event → Nat
  | .start p _ => p
  | .kill p => p
  | .call p _ => p
  | .next p _ _ => p

theorem procs_untouched (w : World) (e : Event) (p : Nat) (h : p ≠ e.core) : (step w e).procs p = w.procs p := by
  cases e with
  | start q root =>
    rw [step]
    split
    · rfl
    · split
      · rfl
      · exact Function.update_of_ne h _ _
  | kill q | next q ok order =>
    rw [step]
    split
    · exact Function.update_of_ne h _ _
    · rfl
  | call q call =>
    rw [step]
    split
    · split
      · exact Function.update_of_ne h _ _
      · rfl
    · rfl

/-- A run that is not about a core leaves it as it was. -/
theorem procs_run (p : Nat) (es : List Event) (w : World) (h : ∀ e ∈ es, p ≠ e.core) : (run step w es).procs p = w.procs p := by
  induction es generalizing w with
  | nil => rfl
  | cons e es ih =>
    rw [run_cons, ih _ fun e' he' => h e' (List.mem_cons_of_mem e he')]
    exact procs_untouched w e p (h e List.mem_cons_self)

/-- The record of the first core is overwritten while it is alive, and once it is dead its service is left
at `Address` with the user's servers recorded nowhere. -/
theorem overlap_loses : ¬Along step (Kept (fun _ => ["192.168.1.1".toList]) false)
    (World.init (fun _ => ["192.168.1.1".toList]) false) (overlap "Wi-Fi".toList ++ [.kill 1]) := by
  intro hkept
  obtain ⟨-, hlast, -⟩ := (along_append _ _ _).1 hkept
  have hset : (step (run step (World.init (fun _ => ["192.168.1.1".toList]) false)
      (overlap "Wi-Fi".toList)) (.kill 1)).host.setBy "Wi-Fi".toList = some 1 := by rfl
  rcases hlast.recorded "Wi-Fi".toList (by rw [hset]; exact Option.some_ne_none 1) with
    ⟨rec, hrec, hservers⟩ | ⟨p, core, hp, hservers⟩
  · have hnone : (step (run step (World.init (fun _ => ["192.168.1.1".toList]) false) (overlap "Wi-Fi".toList)) (.kill 1)).host.file.map
        (fun rec => rec.Services.lookup "Wi-Fi".toList) = some none := by rfl
    rw [hrec, Option.map_some, hservers] at hnone
    cases hnone
  · -- The second core, the only one alive, has nothing to put back.
    by_cases hsecond : p = 2
    · subst hsecond
      obtain ⟨core', hlive, hnone⟩ : ∃ core', (step (run step (World.init (fun _ => ["192.168.1.1".toList]) false)
          (overlap "Wi-Fi".toList)) (.kill 1)).procs 2 = .live core' ∧
          core'.owned.Services.lookup "Wi-Fi".toList = none := ⟨_, rfl, rfl⟩
      cases hlive.symm.trans hp
      cases hnone.symm.trans hservers
    · by_cases hfirst : p = 1
      · subst hfirst
        have hdead : (step (run step (World.init (fun _ => ["192.168.1.1".toList]) false)
            (overlap "Wi-Fi".toList)) (.kill 1)).procs 1 = .dead := by rfl
        cases hdead.symm.trans hp
      · have hcores : ∀ e ∈ overlap "Wi-Fi".toList ++ [.kill 1], e.core = 1 ∨ e.core = 2 := by
          simp [overlap, Event.core]
        have hunborn := procs_run p (overlap "Wi-Fi".toList ++ [.kill 1]) (World.init (fun _ => ["192.168.1.1".toList]) false) fun e he hsame => by
            rcases hcores e he with h | h
            · exact hfirst (hsame.trans h)
            · exact hsecond (hsame.trans h)
        rw [run_append] at hunborn
        cases hunborn.symm.trans hp

end Throne.Core.SysDns
