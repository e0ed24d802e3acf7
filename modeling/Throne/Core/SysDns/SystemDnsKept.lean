import Throne.Core.SysDns.SystemDns

/-!
# The user's servers are kept

What the state file, the cores' memory and the system say of the user's servers, along every run in which
cores do not overlap while one of them holds the DNS: a service that is pointed at `Address` stands in the
state file with the user's own servers, and what is put back are these.

The invariant has a part about what the cores share (`Shared`), one about the processes (`Procs`) and one
about each core (`CoreOk`). A command changes what is shared in one of nine ways (`Effect`), each with what
the core knows when it does so; that is all the other cores have to be told.
-/

namespace Throne.Core.SysDns

open Lib.Runs Lib.Texts

/-! ## The condition on the steps -/

/-- The state file holds the record of the core `p`. -/
def Host.FileOf (host : Host) (p : Nat) : Prop := ∃ rec, host.file = some rec ∧ rec.PID = p

/-- The core is in `Prepare`, up to where it takes its number down. -/
def Pc.preparing : Pc → Bool
  | .load prepare => prepare
  | .replay prepare _ _ _ => prepare
  | .replayAlias prepare _ => prepare
  | .replayWrite prepare _ => prepare
  | .merge _ => true
  | _ => false

/-- The core has prepared the DNS, or is about to. -/
def Memory.Holds (core : Memory) : Prop := core.owned.PID ≠ 0 ∨ core.pc.preparing = true

/-- No other living core holds the DNS, and none has its record in the file. -/
def Alone (w : World) (p : Nat) : Prop := ∀ q core, q ≠ p → w.procs q = .live core → ¬core.Holds ∧ ¬w.host.FileOf q

/-- What a step must find: a core starts under another number than the record's in the file, prepares alone and reads
the record there may be to replay, applies with its record in the file, and removes the alias where it has to. -/
def Meets (w : World) : Event → Prop
  | .start p _ => ¬w.host.FileOf p
  | .call p .Prepare => Alone w p
  | .call p (.Apply _) => w.host.FileOf p
  | .next p ok _ =>
    ok = true ∨ ∀ core, w.procs p = .live core → match core.pc with
      | .load true => w.host.file = none ∨ w.host.FileOf p
      | .replayAlias _ stored => stored.Alias = false
      | .releaseAlias _ => core.owned.Alias = false
      | _ => True
  | _ => True

/-! ## The invariant -/

variable {core' : Memory} {w' : World}

section Invariant

variable (userDns : Service → Servers) (userAlias : Bool)

/-- Every entry is the user's. -/
def Values (services : AList fun _ : Service => Servers) : Prop :=
  ∀ service servers, services.lookup service = some servers → servers = userDns service

variable {userDns} in
theorem values_erase {services : AList fun _ : Service => Servers} (h : Values userDns services) (service : Service) :
    Values userDns (services.erase service) := by
  intro other servers hother
  by_cases hsame : other = service
  · subst hsame
    rw [AList.lookup_erase] at hother
    cases hother
  · rw [AList.lookup_erase_ne hsame] at hother
    exact h other servers hother

theorem setBy_setBack (host : Host) (service s : Service) (servers : Servers) :
    (host.setBack service servers).setBy s = if s = service then none else host.setBy s :=
  Function.update_apply ..

theorem setBack_set {host : Host} {service s : Service} {servers : Servers}
    (h : (host.setBack service servers).setBy s ≠ none) : s ≠ service ∧ host.setBy s ≠ none := by
  rw [setBy_setBack] at h
  split at h
  · exact absurd rfl h
  · next hother => exact ⟨hother, h⟩

/-- What holds of what the cores share. -/
structure Shared (host : Host) : Prop where
  back : ∀ service, host.setBy service = none → host.dns service = userDns service
  values : ∀ rec, host.file = some rec → Values userDns rec.Services
  covered : ∀ service, host.setBy service ≠ none → ∃ rec, host.file = some rec ∧ service ∈ rec.Services
  aliasCovered : host.aliasPresent = true → userAlias = true ∨ ∃ rec, host.file = some rec ∧ rec.Alias = true
  usersAlias : userAlias = true → host.aliasPresent = true
  aliasFlag : ∀ rec, host.file = some rec → rec.Alias = true → userAlias = false

/-- The commands that run under the state lock. -/
def Pc.locked : Pc → Bool
  | .replay _ _ _ _ => true
  | .replayAlias _ _ => true
  | .replayWrite _ _ => true
  | _ => false

/-- What holds of the processes. One core at most holds the DNS, and the file is then its own or that of a
dead core. -/
structure Procs (w : World) : Prop where
  zero : w.procs 0 = .unborn
  lock : ∀ p, w.host.lock = some p → ∃ core, w.procs p = .live core ∧ core.pc.locked = true
  born : ∀ rec, w.host.file = some rec → w.procs rec.PID ≠ .unborn
  one : ∀ p q core other, w.procs p = .live core → w.procs q = .live other → core.Holds → other.Holds → p = q
  holder : ∀ p q core other, w.procs p = .live core → core.Holds → w.procs q = .live other → w.host.FileOf q → q = p
  setBy : ∀ service p core, w.host.setBy service = some p → w.procs p = .live core → core.owned.PID ≠ 0

/-- What a core knows while it replays the record of a dead one. -/
structure ReplayOk (w : World) (p : Nat) (stored : Record) : Prop where
  lock : w.host.lock = some p
  file : w.host.FileOf stored.PID
  dead : w.procs stored.PID = .dead
  values : Values userDns stored.Services
  covered : ∀ service, w.host.setBy service ≠ none → service ∈ stored.Services
  aliasKept : w.host.aliasPresent = true → userAlias = true ∨ stored.Alias = true
  flag : stored.Alias = true → userAlias = false

/-- What is left to be put back: each service once, and all of them where no command has failed. -/
structure LoopOk (core : Memory) (todo : List Service) (clean : Bool) : Prop where
  once : todo.Nodup
  recorded : ∀ service ∈ todo, service ∈ core.owned.Services
  all : clean = true → ∀ service ∈ core.owned.Services, service ∈ todo

/-- What a core has when it is in `Release`. -/
structure Releasing (core : Memory) : Prop where
  pid : core.owned.PID ≠ 0
  monitor : core.monitor = false
  current : core.current = none

/-- What a core knows at each command. -/
def PcOk (w : World) (p : Nat) (core : Memory) : Prop :=
  match core.pc with
  | .idle => True
  | .load _ => True
  | .replay _ stored service todo =>
    ReplayOk userDns userAlias w p stored ∧ (service :: todo).Nodup ∧ ∀ x ∈ service :: todo, x ∈ stored.Services
  | .replayAlias _ stored => ReplayOk userDns userAlias w p stored
  | .replayWrite _ stored => ReplayOk userDns userAlias w p stored ∧ stored.Alias = false
  | .merge leftovers =>
    Values userDns leftovers ∧ (w.host.FileOf p → leftovers = ∅) ∧ (∀ service, w.host.setBy service ≠ none →
        service ∈ leftovers ∨ service ∈ core.owned.Services) ∧
      (w.host.aliasPresent = true → userAlias = true ∨ core.owned.Alias = true)
  | .prepareSave => core.owned.PID ≠ 0
  | .prepareAdd =>
    core.owned.PID ≠ 0 ∧ ∃ rec, w.host.file = some rec ∧ rec.PID = p ∧ rec.Alias = core.owned.Alias
  | .pointRead service =>
    core.monitor = true ∧ core.current ≠ some service ∧ service ∉ core.owned.Services
  | .pointSave service previous =>
    core.monitor = true ∧ core.current ≠ some service ∧ previous = userDns service
  | .pointSet service =>
    core.monitor = true ∧ core.current ≠ some service ∧ service ∈ core.owned.Services
  | .restoreSet service (.follow target) =>
    core.owned.PID ≠ 0 ∧ service ∈ core.owned.Services ∧ target ∈ core.owned.Services ∧ target ≠ service
  | .restoreSet service (.release todo clean) =>
    Releasing core ∧ LoopOk core (service :: todo) clean
  | .restoreSave (.follow target) => core.owned.PID ≠ 0 ∧ target ∈ core.owned.Services
  | .restoreSave (.release todo clean) => Releasing core ∧ LoopOk core todo clean
  | .releaseAlias clean => Releasing core ∧ (clean = true → core.owned.Services.keys = [])
  | .releaseSave clean => Releasing core ∧ core.owned.Alias = false ∧ clean = false
  | .releaseRemove _ =>
    Releasing core ∧ core.owned.Alias = false ∧ core.owned.Services.keys = []

/-- What holds of a core that is alive. -/
structure CoreOk (w : World) (p : Nat) (core : Memory) : Prop where
  pid : core.owned.PID = 0 ∨ core.owned.PID = p
  fresh : core.owned.PID = 0 → core.owned = .empty ∧ core.monitor = false ∧ core.current = none
  values : Values userDns core.owned.Services
  covered : core.owned.PID ≠ 0 ∨ w.host.FileOf p → ∀ service, w.host.setBy service ≠ none → service ∈ core.owned.Services
  aliasKept : core.owned.PID ≠ 0 ∨ w.host.FileOf p → w.host.aliasPresent = true → userAlias = true ∨ core.owned.Alias = true
  flag : core.owned.Alias = true → userAlias = false
  saved : ∀ rec, w.host.file = some rec → rec.PID = p → ∀ service ∈ core.owned.Services, service ∈ rec.Services
  monitored : core.monitor = true → w.host.FileOf p
  current : ∀ service, core.current = some service → service ∈ core.owned.Services ∨ ∃ target, core.pc = .restoreSave (.follow target)
  pc : PcOk userDns userAlias w p core

/-- The invariant. -/
structure Ok (w : World) : Prop where
  shared : Shared userDns userAlias w.host
  procs : Procs w
  cores : ∀ p core, w.procs p = .live core → CoreOk userDns userAlias w p core

/-! ## What a command does to what the cores share -/

/-- The changes the core `p` makes to what the cores share, with what it knows then. -/
inductive Effect (w : World) (p : Nat) (core : Memory) : Host → Prop
  | none : Effect w p core w.host
  | lock (h : w.host.lock = none) : Effect w p core { w.host with lock := some p }
  | back (service : Service) : Effect w p core (w.host.setBack service (userDns service))
  | point (service : Service) (rec : Record) (hfile : w.host.file = some rec) (hpid : rec.PID = p)
      (hmem : service ∈ rec.Services) (hheld : core.owned.PID ≠ 0) :
      Effect w p core (w.host.point p service)
  | aliasOff (h : userAlias = false) : Effect w p core { w.host with aliasPresent := false }
  | aliasOn (rec : Record) (hfile : w.host.file = some rec) (hpid : rec.PID = p)
      (hflag : rec.Alias = true) (hheld : core.owned.PID ≠ 0) :
      Effect w p core { w.host with aliasPresent := true }
  | save (rec : Record) (hlock : w.host.lock = none) (hpid : rec.PID = p)
      (hheld : core.owned.PID ≠ 0) (hvalues : Values userDns rec.Services)
      (hcovered : ∀ service, w.host.setBy service ≠ none → service ∈ rec.Services)
      (halias : w.host.aliasPresent = true → userAlias = true ∨ rec.Alias = true)
      (hflag : rec.Alias = true → userAlias = false) :
      Effect w p core { w.host with file := some rec }
  | remove (hlock : w.host.lock = none) (hheld : core.owned.PID ≠ 0)
      (hback : ∀ service, w.host.setBy service = none)
      (halias : w.host.aliasPresent = true → userAlias = true) :
      Effect w p core { w.host with file := none }
  | written (stored : Record) (file : Option Record)
      (hreplay : ReplayOk userDns userAlias w p stored)
      (hflag : stored.Alias = false)
      (hfile : file = w.host.file ∨ file = some stored ∨ file = none ∧ ∀ service, service ∉ stored.Services) :
      Effect w p core { w.host with file := file, lock := none }

variable {userDns userAlias} {w : World} {p q : Nat} {core other : Memory}

theorem not_fileOf_of_dead {stored : Record} (hp : w.procs p = .live core) (h : ReplayOk userDns userAlias w p stored) : stored.PID ≠ p := by
  intro hsame
  have hdead := h.dead
  rw [hsame, hp] at hdead
  cases hdead

variable {host : Host}

/-- What the cores share stays right under every effect. -/
theorem shared_effect (h : Shared userDns userAlias w.host) (heffect : Effect userDns userAlias w p core host) : Shared userDns userAlias host := by
  cases heffect with
  | none => exact h
  | lock hlock => exact ⟨h.back, h.values, h.covered, h.aliasCovered, h.usersAlias, h.aliasFlag⟩
  | back service =>
    refine ⟨?_, h.values, ?_, h.aliasCovered, h.usersAlias, h.aliasFlag⟩
    · intro other hother
      by_cases hsame : other = service
      · subst hsame
        simp [Host.setBack]
      · simp only [Host.setBack, Function.update_of_ne hsame] at hother ⊢
        exact h.back other hother
    · exact fun other hother => h.covered other (setBack_set hother).2
  | point service rec hfile hpid hmem hheld =>
    refine ⟨?_, h.values, ?_, h.aliasCovered, h.usersAlias, h.aliasFlag⟩
    · intro other hother
      by_cases hsame : other = service
      · subst hsame
        simp [Host.point] at hother
      · simp only [Host.point, Function.update_of_ne hsame] at hother ⊢
        exact h.back other hother
    · intro other hother
      by_cases hsame : other = service
      · subst hsame
        exact ⟨rec, hfile, hmem⟩
      · simp only [Host.point, Function.update_of_ne hsame] at hother
        exact h.covered other hother
  | aliasOff huser =>
    refine ⟨h.back, h.values, h.covered, ?_, ?_, h.aliasFlag⟩
    · exact nofun
    · intro huser'
      rw [huser] at huser'
      cases huser'
  | aliasOn rec hfile hpid hflag hheld =>
    refine ⟨h.back, h.values, h.covered, ?_, ?_, h.aliasFlag⟩
    · exact fun _ => .inr ⟨rec, hfile, hflag⟩
    · exact fun _ => rfl
  | save rec hlock hpid hheld hvalues hcovered halias hflag =>
    refine ⟨h.back, ?_, ?_, ?_, h.usersAlias, ?_⟩
    · rintro rec' ⟨⟩
      exact hvalues
    · exact fun service hset => ⟨rec, rfl, hcovered service hset⟩
    · exact fun hpresent => (halias hpresent).imp_right fun hown => ⟨rec, rfl, hown⟩
    · rintro rec' ⟨⟩
      exact hflag
  | remove hlock hheld hback halias =>
    refine ⟨h.back, nofun, ?_, ?_, h.usersAlias, nofun⟩
    · exact fun service hset => absurd (hback service) hset
    · exact fun hpresent => .inl (halias hpresent)
  | written stored file hreplay hflag hfile =>
    have hnoAlias : w.host.aliasPresent = true → userAlias = true := by
      intro hpresent
      rcases hreplay.aliasKept hpresent with huser | hown
      · exact huser
      · rw [hflag] at hown
        cases hown
    rcases hfile with rfl | rfl | ⟨rfl, hempty⟩
    · exact ⟨h.back, h.values, h.covered, h.aliasCovered, h.usersAlias, h.aliasFlag⟩
    · refine ⟨h.back, ?_, ?_, fun hpresent => .inl (hnoAlias hpresent), h.usersAlias, ?_⟩
      · rintro rec ⟨⟩
        exact hreplay.values
      · exact fun service hset => ⟨stored, rfl, hreplay.covered service hset⟩
      · rintro rec ⟨⟩ hown
        exact hreplay.flag hown
    · refine ⟨h.back, nofun, ?_, fun hpresent => .inl (hnoAlias hpresent), h.usersAlias, nofun⟩
      exact fun service hset => absurd (hreplay.covered service hset) (hempty service)

/-! ## The other cores -/

theorem fileOf_congr {host' : Host} (h : ∀ rec : Record, rec.PID = q → (host'.file = some rec ↔ host.file = some rec)) :
    host'.FileOf q ↔ host.FileOf q :=
  exists_congr fun rec => and_congr_left fun hpid => h rec hpid

/-- A core does not notice a change that leaves its own record alone, points no further service, adds no
alias and does not disturb it while it replays. -/
theorem coreOk_quiet (h : CoreOk userDns userAlias w q other)
    (hfile : ∀ rec : Record, rec.PID = q → (w'.host.file = some rec ↔ w.host.file = some rec))
    (hset : ∀ service, w'.host.setBy service ≠ none → w.host.setBy service ≠ none)
    (halias : w'.host.aliasPresent = true → w.host.aliasPresent = true)
    (hreplay : ∀ stored, ReplayOk userDns userAlias w q stored → ReplayOk userDns userAlias w' q stored) :
    CoreOk userDns userAlias w' q other := by
  have hown := fileOf_congr hfile
  refine ⟨h.pid, h.fresh, h.values, ?_, ?_, h.flag, ?_, ?_, h.current, ?_⟩
  · intro hheld service hservice
    exact h.covered (hheld.imp_right hown.1) service (hset service hservice)
  · intro hheld hpresent
    exact h.aliasKept (hheld.imp_right hown.1) (halias hpresent)
  · intro rec hrec hpid
    exact h.saved rec ((hfile rec hpid).1 hrec) hpid
  · exact fun hmonitor => hown.2 (h.monitored hmonitor)
  · have hpc := h.pc
    unfold PcOk at hpc ⊢
    split at hpc
    · trivial
    · trivial
    · exact ⟨hreplay _ hpc.1, hpc.2⟩
    · exact hreplay _ hpc
    · exact ⟨hreplay _ hpc.1, hpc.2⟩
    · obtain ⟨hvalues, hno, hcovered, hkept⟩ := hpc
      exact ⟨hvalues, fun hfileOf => hno (hown.1 hfileOf), fun service hservice => hcovered service (hset service hservice),
        fun hpresent => hkept (halias hpresent)⟩
    · exact hpc
    · obtain ⟨hpid, rec, hrec, hpidRec, hflag⟩ := hpc
      exact ⟨hpid, rec, (hfile rec hpidRec).2 hrec, hpidRec, hflag⟩
    all_goals exact hpc

/-- A core that neither holds the DNS nor replays is idle or about to look at the record. -/
theorem aside_pc (h : CoreOk userDns userAlias w q other) (hheld : ¬other.Holds)
    (hlock : w.host.lock ≠ some q) : other.pc = .idle ∨ other.pc = .load false := by
  rw [Memory.Holds, not_or, not_ne_iff] at hheld
  obtain ⟨hpid, hpreparing⟩ := hheld
  obtain ⟨-, hmonitor, -⟩ := h.fresh hpid
  have hpc := h.pc
  unfold PcOk at hpc
  split at hpc
  · next hat => exact .inl hat
  · next prepare hat =>
    rw [hat] at hpreparing
    cases prepare with
    | false => exact .inr hat
    | true => exact absurd rfl hpreparing
  · exact absurd hpc.1.lock hlock
  · exact absurd hpc.lock hlock
  · exact absurd hpc.1.lock hlock
  · next hat =>
    rw [hat] at hpreparing
    exact absurd rfl hpreparing
  · exact absurd hpid hpc
  · exact absurd hpid hpc.1
  · rw [hmonitor] at hpc
    exact absurd hpc.1 Bool.false_ne_true
  · rw [hmonitor] at hpc
    exact absurd hpc.1 Bool.false_ne_true
  · rw [hmonitor] at hpc
    exact absurd hpc.1 Bool.false_ne_true
  · exact absurd hpid hpc.1
  · exact absurd hpid hpc.1.pid
  · exact absurd hpid hpc.1
  all_goals exact absurd hpid hpc.1.pid

/-- A core set aside does not notice any change that gives it no record. -/
theorem coreOk_aside (h : CoreOk userDns userAlias w q other) (hheld : ¬other.Holds)
    (hlock : w.host.lock ≠ some q) (hfile : ¬w'.host.FileOf q) : CoreOk userDns userAlias w' q other := by
  have hpid : other.owned.PID = 0 := by
    rw [Memory.Holds, not_or, not_ne_iff] at hheld
    exact hheld.1
  have hmonitor := (h.fresh hpid).2.1
  refine ⟨h.pid, h.fresh, h.values, ?_, ?_, h.flag, ?_, ?_, h.current, ?_⟩
  · intro hown
    exact absurd hown (not_or.2 ⟨not_not.2 hpid, hfile⟩)
  · intro hown
    exact absurd hown (not_or.2 ⟨not_not.2 hpid, hfile⟩)
  · exact fun rec hrec hsame => absurd ⟨rec, hrec, hsame⟩ hfile
  · intro hset
    rw [hmonitor] at hset
    cases hset
  · rcases aside_pc h hheld hlock with hat | hat <;> rw [PcOk, hat] <;> trivial

/-- The world after a command of the core `p`. -/
def World.after (w : World) (p : Nat) (core : Memory) (host : Host) : World :=
  { w.setProc p (.live core) with host := host }

/-- No other core is disturbed by an effect. -/
theorem coreOk_other (hok : Ok userDns userAlias w) (hp : w.procs p = .live core)
    (hq : w.procs q = .live other) (hne : q ≠ p) (heffect : Effect userDns userAlias w p core host)
    (core' : Memory) : CoreOk userDns userAlias (w.after p core' host) q other := by
  have hother := hok.cores q other hq
  have hdead : ∀ pid, w.procs pid = .dead → (w.after p core' host).procs pid = .dead := by
    intro pid hpid
    have hpidNe : pid ≠ p := by
      rintro rfl
      rw [hp] at hpid
      exact nomatch hpid
    exact (Function.update_of_ne hpidNe _ _).trans hpid
  have hotherHeld : core.owned.PID ≠ 0 → ¬other.Holds := fun hheld hholds =>
    hne (hok.procs.one q p other core hq hp hholds (.inl hheld))
  -- A core that replays has the lock, and the record in the file is a dead core's.
  have hnoReplay : ∀ rec : Record, w.host.file = some rec → rec.PID = p → w.host.lock ≠ some q := by
    intro rec hrec hpid hlock
    obtain ⟨core'', hcore'', hlocked⟩ := hok.procs.lock q hlock
    rw [hq] at hcore''
    cases hcore''
    have hreplay : ∃ stored, ReplayOk userDns userAlias w q stored := by
      have hpc := hother.pc
      unfold PcOk at hpc
      split at hpc <;> rename_i hat <;> rw [hat] at hlocked <;> first
        | exact absurd hlocked Bool.false_ne_true
        | exact ⟨_, hpc.1⟩
        | exact ⟨_, hpc⟩
    obtain ⟨stored, hreplay⟩ := hreplay
    obtain ⟨rec', hrec', hpid'⟩ := hreplay.file
    rw [hrec] at hrec'
    cases hrec'
    have hdead' := hreplay.dead
    rw [← hpid', hpid, hp] at hdead'
    exact nomatch hdead'
  cases heffect with
  | none =>
    refine coreOk_quiet hother (fun _ _ => Iff.rfl) (fun _ h => h) (fun h => h) ?_
    exact fun stored h => ⟨h.lock, h.file, hdead _ h.dead, h.values, h.covered, h.aliasKept, h.flag⟩
  | lock hlock =>
    refine coreOk_quiet hother (fun _ _ => Iff.rfl) (fun _ h => h) (fun h => h) ?_
    intro stored h
    have hheld := h.lock
    rw [hlock] at hheld
    exact nomatch hheld
  | back service =>
    refine coreOk_quiet hother (fun _ _ => Iff.rfl) (fun _ hs => (setBack_set hs).2) (fun h => h) ?_
    exact fun stored h => ⟨h.lock, h.file, hdead _ h.dead, h.values, fun s hs => h.covered s (setBack_set hs).2, h.aliasKept, h.flag⟩
  | point service rec hfile hpid hmem hheld | aliasOn rec hfile hpid hflag hheld =>
    refine coreOk_aside hother (hotherHeld hheld) (hnoReplay rec hfile hpid) ?_
    rintro ⟨rec', hrec', hpid'⟩
    have hsame : rec = rec' := Option.some.inj (hfile.symm.trans hrec')
    exact hne (hpid'.symm.trans (hsame ▸ hpid))
  | aliasOff huser =>
    refine coreOk_quiet hother (fun _ _ => Iff.rfl) (fun _ h => h) nofun ?_
    exact fun stored h => ⟨h.lock, h.file, hdead _ h.dead, h.values, h.covered, nofun, h.flag⟩
  | save rec hlock hpid hheld hvalues hcovered halias hflag =>
    refine coreOk_aside hother (hotherHeld hheld) ?_ ?_
    · rw [hlock]
      exact nofun
    · rintro ⟨rec', hrec', hpid'⟩
      have hsame : rec = rec' := Option.some.inj hrec'
      exact hne (hpid'.symm.trans (hsame ▸ hpid))
  | remove hlock hheld hback halias =>
    refine coreOk_aside hother (hotherHeld hheld) ?_ ?_
    · rw [hlock]
      exact nofun
    · rintro ⟨rec', hrec', -⟩
      exact nomatch hrec'
  | written stored file hreplay hflag hfile =>
    have hno : ∀ rec : Record, rec.PID = q → w.host.file ≠ some rec := by
      intro rec hpid hrec
      obtain ⟨rec', hrec', hpid'⟩ := hreplay.file
      rw [hrec] at hrec'
      cases hrec'
      have hdead' := hreplay.dead
      rw [← hpid', hpid, hq] at hdead'
      exact nomatch hdead'
    have hno' : ∀ rec : Record, rec.PID = q → file ≠ some rec := by
      intro rec hpid hrec
      rcases hfile with rfl | rfl | ⟨rfl, -⟩
      · exact hno rec hpid hrec
      · cases hrec
        have hdead' := hreplay.dead
        rw [hpid, hq] at hdead'
        exact nomatch hdead'
      · exact nomatch hrec
    refine coreOk_quiet hother ?_ (fun _ h => h) (fun h => h) ?_
    · exact fun rec hpid => iff_of_false (hno' rec hpid) (hno rec hpid)
    · intro stored' h
      have hheld := h.lock
      rw [hreplay.lock] at hheld
      exact absurd (Option.some.inj hheld).symm hne

/-! ## One command -/

/-- Whose record the file holds after an effect: it was there, or the core wrote its own, or it is a dead
core's. -/
theorem fileOf_effect (heffect : Effect userDns userAlias w p core host) (h : host.FileOf q) :
    w.host.FileOf q ∨ q = p ∧ core.owned.PID ≠ 0 ∨ w.procs q = .dead := by
  cases heffect with
  | save rec hlock hpid hheld _ _ _ _ =>
    obtain ⟨rec', hrec', hpid'⟩ := h
    cases hrec'
    exact .inr (.inl ⟨hpid'.symm.trans hpid, hheld⟩)
  | remove _ _ _ _ =>
    obtain ⟨rec', hrec', -⟩ := h
    cases hrec'
  | written stored file hreplay hflag hfile =>
    rcases hfile with rfl | rfl | ⟨rfl, -⟩
    · exact .inl h
    · obtain ⟨rec', hrec', hpid'⟩ := h
      cases hrec'
      exact .inr (.inr (hpid' ▸ hreplay.dead))
    · obtain ⟨rec', hrec', -⟩ := h
      cases hrec'
  | _ => exact .inl h

/-- Only the core itself takes the lock. -/
theorem lock_effect (heffect : Effect userDns userAlias w p core host) (h : host.lock = some q) (hne : q ≠ p) : w.host.lock = some q := by
  cases heffect with
  | lock hlock => exact absurd (Option.some.inj h).symm hne
  | written stored file hreplay hflag hfile => cases h
  | _ => exact h

/-- Only the core itself points a service. -/
theorem setBy_effect {service : Service} (heffect : Effect userDns userAlias w p core host)
    (h : host.setBy service = some q) : w.host.setBy service = some q ∨ q = p ∧ core.owned.PID ≠ 0 := by
  cases heffect with
  | back other =>
    rw [setBy_setBack] at h
    split at h
    · cases h
    · exact .inl h
  | point other rec hfile hpid hmem hheld =>
    by_cases hsame : service = other
    · subst hsame
      exact .inr ⟨by simpa [Host.point] using h.symm, hheld⟩
    · exact .inl (by simpa only [Host.point, Function.update_of_ne hsame] using h)
  | _ => exact .inl h

theorem after_self (w : World) (p : Nat) (core : Memory) (host : Host) : (w.after p core host).procs p = .live core := Function.update_self _ _ _

theorem after_other (w : World) (hne : q ≠ p) (core : Memory) (host : Host) :
    (w.after p core host).procs q = w.procs q := Function.update_of_ne hne _ _

/-- A core that is alive after a command was alive before, and held the DNS if it does, or starts alone. -/
theorem live_after (hp : w.procs p = .live core) (hholds : core'.Holds → core.Holds ∨ Alone w p)
    (hq : (w.after p core' host).procs q = .live other) : ∃ before, w.procs q = .live before ∧
    (other.Holds → before.Holds ∨ q = p ∧ Alone w p) := by
  by_cases hsame : q = p
  · subst hsame
    rw [after_self] at hq
    cases hq
    exact ⟨core, hp, fun h => (hholds h).imp_right fun halone => ⟨rfl, halone⟩⟩
  · rw [after_other w hsame] at hq
    exact ⟨other, hq, .inl⟩

/-- The processes stay right when a core runs a command, or starts to prepare alone. -/
theorem procs_after (h : Procs w) (hp : w.procs p = .live core) (heffect : Effect userDns userAlias w p core host)
    (hholds : core'.Holds → core.Holds ∨ Alone w p) (hlock : host.lock = some p → core'.pc.locked = true)
    (hpid : core'.owned.PID = 0 → core.owned.PID = 0 ∨ ∀ service, host.setBy service = Option.none) : Procs (w.after p core' host) where
  zero := by
    have hne : (0 : Nat) ≠ p := by
      rintro rfl
      rw [h.zero] at hp
      cases hp
    rw [after_other w hne]
    exact h.zero
  lock q hq := by
    by_cases hsame : q = p
    · subst hsame
      exact ⟨core', after_self w q core' host, hlock hq⟩
    · rw [after_other w hsame]
      exact h.lock q (lock_effect heffect hq hsame)
  born rec hrec hunborn := by
    have hne : rec.PID ≠ p := by
      intro hsame
      rw [hsame, after_self] at hunborn
      cases hunborn
    rw [after_other w hne] at hunborn
    rcases fileOf_effect heffect ⟨rec, hrec, rfl⟩ with ⟨rec', hrec', hpid'⟩ | ⟨hsame, -⟩ | hdead
    · rw [← hpid'] at hunborn
      exact h.born rec' hrec' hunborn
    · exact hne hsame
    · rw [hdead] at hunborn
      cases hunborn
  one q q' other other' hq hq' hother hother' := by
    obtain ⟨before, hbefore, hheld⟩ := live_after hp hholds hq
    obtain ⟨before', hbefore', hheld'⟩ := live_after hp hholds hq'
    rcases hheld hother with hold | ⟨rfl, halone⟩
    · rcases hheld' hother' with hold' | ⟨rfl, halone⟩
      · exact h.one q q' before before' hbefore hbefore' hold hold'
      · by_contra hne
        exact (halone q before hne hbefore).1 hold
    · by_contra hne
      rcases hheld' hother' with hold' | ⟨hsame, -⟩
      · exact (halone q' before' (Ne.symm hne) hbefore').1 hold'
      · exact hne hsame.symm
  holder q q' other other' hq hother hq' hfile := by
    obtain ⟨before, hbefore, hheld⟩ := live_after hp hholds hq
    obtain ⟨before', hbefore', -⟩ := live_after hp hholds hq'
    rcases fileOf_effect heffect hfile with hbeforeFile | ⟨rfl, hown⟩ | hdead
    · rcases hheld hother with hold | ⟨rfl, halone⟩
      · exact h.holder q q' before before' hbefore hold hbefore' hbeforeFile
      · by_contra hne
        exact (halone q' before' hne hbefore').2 hbeforeFile
    · rcases hheld hother with hold | ⟨hsame, -⟩
      · exact h.one q' q core before hp hbefore (.inl hown) hold
      · exact hsame.symm
    · rw [hdead] at hbefore'
      cases hbefore'
  setBy service q other hq hother := by
    by_cases hsame : q = p
    · subst hsame
      rw [after_self] at hother
      cases hother
      intro hzero
      rcases hpid hzero with hbefore | hnone
      · rcases setBy_effect heffect hq with hset | ⟨-, hheld⟩
        · exact h.setBy service q core hset hp hbefore
        · exact hheld hbefore
      · exact nomatch (hnone service).symm.trans hq
    · rw [after_other w hsame] at hother
      rcases setBy_effect heffect hq with hset | ⟨hset, -⟩
      · exact h.setBy service q other hset hother
      · exact absurd hset hsame

/-- The invariant after a command, from what is left to be shown of the core that ran it. -/
theorem ok_after (hok : Ok userDns userAlias w) (hp : w.procs p = .live core)
    (heffect : Effect userDns userAlias w p core host) (hholds : core'.Holds → core.Holds ∨ Alone w p)
    (hlock : host.lock = some p → core'.pc.locked = true)
    (hpid : core'.owned.PID = 0 → core.owned.PID = 0 ∨ ∀ service, host.setBy service = Option.none)
    (hcore : CoreOk userDns userAlias (w.after p core' host) p core') : Ok userDns userAlias (w.after p core' host) where
  shared := shared_effect hok.shared heffect
  procs := procs_after hok.procs hp heffect hholds hlock hpid
  cores q other hq := by
    by_cases hsame : q = p
    · subst hsame
      rw [after_self] at hq
      cases hq
      exact hcore
    · rw [after_other w hsame] at hq
      exact coreOk_other hok hp hq hsame heffect core'

/-! ## The core that runs the command -/

/-- A core that moves on with its record as it was. -/
theorem coreOk_moved {pc : Pc} {current : Option Service} (h : CoreOk userDns userAlias w p core)
    (hfile : ∀ rec : Record, rec.PID = p → (w'.host.file = some rec ↔ w.host.file = some rec))
    (hset : ∀ service, w'.host.setBy service ≠ none → w.host.setBy service ≠ none ∨ service ∈ core.owned.Services)
    (halias : w'.host.aliasPresent = true → w.host.aliasPresent = true ∨ core.owned.Alias = true)
    (hfresh : core.owned.PID = 0 → current = none)
    (hcurrent : ∀ service, current = some service → service ∈ core.owned.Services ∨ ∃ target, pc = .restoreSave (.follow target))
    (hpc : PcOk userDns userAlias w' p { core with current := current, pc := pc }) :
    CoreOk userDns userAlias w' p { core with current := current, pc := pc } := by
  have hown := fileOf_congr hfile
  refine ⟨h.pid, ?_, h.values, ?_, ?_, h.flag, ?_, ?_, hcurrent, hpc⟩
  · intro hzero
    obtain ⟨hempty, hmonitor, -⟩ := h.fresh hzero
    exact ⟨hempty, hmonitor, hfresh hzero⟩
  · intro hheld service hservice
    rcases hset service hservice with hbefore | hmem
    · exact h.covered (hheld.imp_right hown.1) service hbefore
    · exact hmem
  · intro hheld hpresent
    rcases halias hpresent with hbefore | hflag
    · exact h.aliasKept (hheld.imp_right hown.1) hbefore
    · exact .inr hflag
  · exact fun rec hrec hpid => h.saved rec ((hfile rec hpid).1 hrec) hpid
  · exact fun hmonitor => hown.2 (h.monitored hmonitor)

/-- A core that has just written its record. -/
theorem coreOk_saved (hpid : core.owned.PID = p) (hp : p ≠ 0) (hfile : w.host.file = some core.owned) (hvalues : Values userDns core.owned.Services)
    (hcovered : ∀ service, w.host.setBy service ≠ none → service ∈ core.owned.Services)
    (halias : w.host.aliasPresent = true → userAlias = true ∨ core.owned.Alias = true) (hflag : core.owned.Alias = true → userAlias = false)
    (hcurrent : ∀ service, core.current = some service → service ∈ core.owned.Services)
    (hpc : PcOk userDns userAlias w p core) : CoreOk userDns userAlias w p core where
  pid := .inr hpid
  fresh hzero := absurd (hpid.symm.trans hzero) hp
  values := hvalues
  covered _ := hcovered
  aliasKept _ := halias
  flag := hflag
  saved rec hrec _ service hservice := by
    rw [hfile] at hrec
    cases hrec
    exact hservice
  monitored _ := ⟨core.owned, hfile, hpid⟩
  current service hservice := .inl (hcurrent service hservice)
  pc := hpc

theorem after_same (hp : w.procs p = .live core) : w.after p core w.host = w := by
  obtain ⟨host, procs⟩ := w
  have hsame : Function.update procs p (.live core) = procs := by
    rw [← hp]
    exact Function.update_eq_self p procs
  exact congrArg (World.mk host) hsame

end Invariant

end Throne.Core.SysDns
