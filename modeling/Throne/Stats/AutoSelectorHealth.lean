import Throne.Lib.Runs
import Throne.Stats.AutoSelectorMonitor

/-!
# Whose health the monitor keeps

The tags of a build are positions, so a status means something only beside the build whose core gave it. As
long as no build comes into force while a poll goes on with what another core has said, every view, every
stored latency, every exhaustion time and every `poolExhausted` belongs to the build behind its status
(`health_kept`). A restart within a poll breaks that (`health_mixed`).
-/

namespace Throne.Stats.AutoSelector

open Lib.Texts Lib.Runs List

/-! ## The property -/

/-- The profile id of a tag in a build. -/
def idOf (infos : List AutoSelectorBuildInfo) (tag : Text) : Int :=
  match infos with
  | [] => -1
  | info :: _ => (info.byTag Profile.id tag).getD (-1)

structure Healthy (infos : Nat → List AutoSelectorBuildInfo) (w : World) : Prop where
  view : w.monitor.active = true → ∀ m ∈ w.monitor.view.members, m.profileID = idOf (infos w.viewOf) m.tag
  stored : ∀ s ∈ w.stored, s.profileID = idOf (infos s.build) s.tag
  exhausted : ∀ e ∈ w.exhausted, e.inForce = some e.build
  emitted : ∀ e ∈ w.emitted, e.suspended = false ∧ ∀ k, e.inForce = some k → k = e.build

/-! ## The runs in question -/

/-- The members are those of the build. -/
def Named (infos : List AutoSelectorBuildInfo) (members : List AutoSelectorMemberView) : Prop := ∀ m ∈ members, m.profileID = idOf infos m.tag

instance (infos : List AutoSelectorBuildInfo) (members : List AutoSelectorMemberView) : Decidable (Named infos members) :=
  inferInstanceAs (Decidable (∀ m ∈ members, m.profileID = idOf infos m.tag))

/-- What a poll goes on with is about build `k`. -/
def Poll.about (infos : Nat → List AutoSelectorBuildInfo) (k : Nat) : Poll → Prop
  | .sleep | .query => True
  | .wanted answer => k = answer.build
  | .members build _ _ => k = build
  | .commit build next _ => k = build ∧ Named (infos k) next.members
  | .due build _ fire _ | .persist build _ fire | .storing build _ fire _ => fire = true → k = build
  | .interface build _ => k = build

instance (infos : Nat → List AutoSelectorBuildInfo) (k : Nat) : (p : Poll) → Decidable (p.about infos k)
  | .sleep | .query => isTrue trivial
  | .wanted answer => inferInstanceAs (Decidable (k = answer.build))
  | .members build _ _ => inferInstanceAs (Decidable (k = build))
  | .commit build next _ => inferInstanceAs (Decidable (k = build ∧ Named (infos k) next.members))
  | .due build _ fire _ => inferInstanceAs (Decidable (fire = true → k = build))
  | .persist build _ fire => inferInstanceAs (Decidable (fire = true → k = build))
  | .storing build _ fire _ => inferInstanceAs (Decidable (fire = true → k = build))
  | .interface build _ => inferInstanceAs (Decidable (k = build))

/-- A build comes into force when the core runs it and no poll goes on with another one, and the core starts
only after a `Clear`. -/
def Meets (infos : Nat → List AutoSelectorBuildInfo) (w : World) : Event → Prop
  | .start _ => w.monitor.active = false
  | .setBuild k _ => k = w.core ∧ w.poll.about infos k
  | _ => True

instance (infos : Nat → List AutoSelectorBuildInfo) (w : World) : (e : Event) → Decidable (Meets infos w e)
  | .start _ => inferInstanceAs (Decidable (w.monitor.active = false))
  | .setBuild k _ => inferInstanceAs (Decidable (k = w.core ∧ w.poll.about infos k))
  | .clear | .clearing _ _ | .poll _ _ _ | .profile _ _ => isTrue trivial

/-! ## The invariant -/

variable {build : Nat}

section Kept

variable {infos : Nat → List AutoSelectorBuildInfo} {w : World}

/-- What a `PersistHealth` has copied. -/
def CopiesOk (infos : Nat → List AutoSelectorBuildInfo) (copies : List Copied) : Prop :=
  ∀ c ∈ copies, c.member.profileID = idOf (infos c.build) c.member.tag

def ClearOk (infos : Nat → List AutoSelectorBuildInfo) : Clear → Prop
  | .storing copies => CopiesOk infos copies
  | _ => True

/-- A poll that has fired did so on a status that was not suspended. -/
def Awake (next : AutoSelectorView) (fire : Bool) : Prop := fire = true → next.suspended = false

def PollOk (infos : Nat → List AutoSelectorBuildInfo) : Poll → Prop
  | .members _ _ next => next.members = []
  | .due _ next fire _ | .persist _ next fire => Awake next fire
  | .storing _ next fire copies => Awake next fire ∧ CopiesOk infos copies
  | .interface _ next => next.suspended = false
  | _ => True

structure Ok (infos : Nat → List AutoSelectorBuildInfo) (w : World) : Prop where
  active : w.monitor.active = w.inForce.isSome
  force : ∀ k, w.inForce = some k → k = w.core ∧ ∀ tag, (w.monitor.tagToProfile tag).getD (-1) = idOf (infos k) tag
  about : ∀ k, w.inForce = some k → w.poll.about infos k
  poll : PollOk infos w.poll
  clears : ∀ c ∈ w.clears, ClearOk infos c
  view : Named (infos w.viewOf) w.monitor.view.members
  stored : ∀ s ∈ w.stored, s.profileID = idOf (infos s.build) s.tag
  exhausted : ∀ e ∈ w.exhausted, e.inForce = some e.build
  emitted : ∀ e ∈ w.emitted, e.suspended = false ∧ ∀ k, e.inForce = some k → k = e.build

theorem healthy_of_ok (h : Ok infos w) : Healthy infos w := ⟨fun _ => h.view, h.stored, h.exhausted, h.emitted⟩

theorem ok_init (infos : Nat → List AutoSelectorBuildInfo) (core : Nat) (latency : Int → Option Int) : Ok infos (World.init core latency) where
  active := rfl
  force _ hk := nomatch hk
  about _ _ := trivial
  poll := trivial
  clears _ hc := nomatch hc
  view _ hm := nomatch hm
  stored _ hs := nomatch hs
  exhausted _ he := nomatch he
  emitted _ he := nomatch he

/-! ### PersistHealth -/

theorem copiesOk_copied (h : Ok infos w) : CopiesOk infos w.copied := by
  intro c hc
  rw [World.copied] at hc
  split at hc
  · obtain ⟨m, hm, rfl⟩ := mem_map.1 hc
    exact h.view m hm
  · cases hc

/-- The lock of `PersistHealth` is taken only to note the time. -/
theorem ok_persist (h : Ok infos w) (now : Int) : Ok infos (w.persist now) := by
  rw [World.persist]
  split
  · exact ⟨h.active, h.force, h.about, h.poll, h.clears, h.view, h.stored, h.exhausted, h.emitted⟩
  · exact h

/-- `PersistHealth` leaves the poll, the build in force and what was emitted alone. -/
theorem frame_persist (w : World) (now : Int) : (w.persist now).inForce = w.inForce ∧ (w.persist now).poll = w.poll ∧
    (w.persist now).emitted = w.emitted := by
  rw [World.persist]
  split <;> exact ⟨rfl, rfl, rfl⟩

theorem frame_store (w : World) (copied : Copied) :
    (w.store copied).inForce = w.inForce ∧ (w.store copied).poll = w.poll ∧ (w.store copied).emitted = w.emitted := by
  rw [World.store]
  split
  · exact ⟨rfl, rfl, rfl⟩
  · split
    all_goals exact ⟨rfl, rfl, rfl⟩

theorem ok_store (h : Ok infos w) {copied : Copied}
    (hcopied : copied.member.profileID = idOf (infos copied.build) copied.member.tag) : Ok infos (w.store copied) := by
  rw [World.store]
  split
  · exact h
  · split
    · exact h
    · refine ⟨h.active, h.force, h.about, h.poll, h.clears, h.view, ?_, h.exhausted, h.emitted⟩
      intro s hs
      rcases mem_cons.1 hs with rfl | hs
      · exact hcopied
      · exact h.stored s hs

/-! ### The monitor's thread -/

/-- The thread goes on, and nothing else changes. -/
theorem ok_setPoll (h : Ok infos w) {p : Poll} (hpoll : PollOk infos p)
    (habout : ∀ k, w.inForce = some k → p.about infos k) : Ok infos { w with poll := p } :=
  ⟨h.active, h.force, habout, hpoll, h.clears, h.view, h.stored, h.exhausted, h.emitted⟩

theorem ok_sleep (h : Ok infos w) : Ok infos { w with poll := .sleep } :=
  ok_setPoll h trivial fun _ _ => trivial

theorem addMembers_members (m : Monitor) (next : AutoSelectorView) (members : List AutoSelectorMember) :
    ∀ acc : AutoSelectorView × Nat, acc.1.pinnedTag = next.pinnedTag → (members.foldl m.addMember acc).1.members =
    acc.1.members ++ members.map (m.entry next.pinnedTag) := by
  induction members with
  | nil => intro acc _; exact (append_nil _).symm
  | cons member members ih =>
    intro acc hacc
    rw [foldl_cons, ih (m.addMember acc member) hacc, map_cons, ← hacc]
    simp only [Monitor.addMember, append_assoc, singleton_append]

variable {next : AutoSelectorView}

/-- The members get the ids their tags have in the build in force. -/
theorem named_addMembers (h : Ok infos w) {k : Nat} (hk : w.inForce = some k)
    (hempty : next.members = []) (members : List AutoSelectorMember) : Named (infos k) (w.monitor.addMembers next members).1.members := by
  intro m hm
  have hmembers := addMembers_members w.monitor next members ({ next with profileID := w.monitor.profileID }, 0) rfl
  rw [Monitor.addMembers, hmembers] at hm
  simp only [hempty, nil_append] at hm
  obtain ⟨member, -, rfl⟩ := mem_map.1 hm
  exact (h.force k hk).2 member.tag

theorem commit_awake (m : Monitor) (next : AutoSelectorView) (usable : Nat) (now : Int) : Awake next (m.commit next usable now).2 := by
  intro hfire
  have hdead : everythingDead next usable = true := by
    cases hdead : everythingDead next usable with
    | true => rfl
    | false =>
      simp [Monitor.commit, hdead] at hfire
  simp only [everythingDead, Bool.and_eq_true, Bool.not_eq_true'] at hdead
  exact hdead.1.2

theorem ok_commit (h : Ok infos w) {usable : Nat} (hp : w.poll = .commit build next usable) (hactive : w.monitor.active = true) (now : Int) : Ok infos
      { w with
        monitor := (w.monitor.commit next usable now).1
        viewOf := build
        exhausted :=
          if everythingDead next usable then ⟨build, w.inForce⟩ :: w.exhausted else w.exhausted
        poll := .due build next (w.monitor.commit next usable now).2 now } := by
  obtain ⟨k, hk⟩ := Option.isSome_iff_exists.1 (h.active.symm.trans hactive)
  have habout := h.about k hk
  rw [hp] at habout
  obtain ⟨rfl, hnamed⟩ := habout
  refine ⟨h.active, h.force, ?_, commit_awake _ _ _ _, h.clears, hnamed, h.stored, ?_, h.emitted⟩
  · intro k' hk' _
    exact Option.some.inj (hk'.symm.trans hk)
  · intro e he
    simp only at he
    split at he
    · rcases mem_cons.1 he with rfl | he
      · exact hk
      · exact h.exhausted e he
    · exact h.exhausted e he

/-- After its health is stored a poll has fired or ends. -/
theorem ok_fired (h : Ok infos w) {fire : Bool} (hawake : Awake next fire) (habout : ∀ k, w.inForce = some k → fire = true → k = build) :
    Ok infos { w with poll := .fired build next fire } := by
  cases fire with
  | false => exact ok_sleep h
  | true => exact ok_setPoll h (hawake rfl) fun k hk => habout k hk rfl

theorem ok_interface (h : Ok infos w) (hp : w.poll = .interface build next) : Ok infos { w with
        emitted := ⟨next.profileID, next.suspended, build, w.inForce⟩ :: w.emitted
        poll := .sleep } := by
  have hpoll := h.poll
  have habout := h.about
  rw [hp] at hpoll habout
  refine ⟨h.active, h.force, fun _ _ => trivial, trivial, h.clears, h.view, h.stored, h.exhausted, ?_⟩
  intro e he
  rcases mem_cons.1 he with rfl | he
  · exact ⟨hpoll, habout⟩
  · exact h.emitted e he

theorem ok_poll (h : Ok infos w) (groups : Option (List AutoSelectorStatus)) (iface : Option Text) (now : Int) :
    Ok infos (runPoll w groups iface now w.poll) := by
  have hpoll := h.poll
  have habout := h.about
  cases hp : w.poll with
  | sleep =>
    rw [runPoll]
    split
    · exact ok_setPoll h trivial fun _ _ => trivial
    · exact ok_sleep h
  | query =>
    cases groups with
    | none => exact ok_sleep h
    | some groups => exact ok_setPoll h trivial fun k hk => (h.force k hk).1
  | wanted answer =>
    rw [hp] at habout
    rw [runPoll]
    split
    · split
      · exact ok_sleep h
      · exact ok_setPoll h rfl habout
    · exact ok_sleep h
  | members build status next =>
    rw [hp] at hpoll habout
    rw [runPoll]
    refine ok_setPoll h ?_ ?_
    · exact trivial
    · intro k hk
      exact ⟨habout k hk, named_addMembers h hk hpoll status.members⟩
  | commit build next usable =>
    rw [runPoll]
    split
    · exact ok_commit h hp ‹_› now
    · exact ok_sleep h
  | due build next fire now' =>
    rw [hp] at hpoll habout
    rw [runPoll]
    split
    · exact ok_setPoll h hpoll habout
    · exact ok_fired h hpoll habout
  | persist build next fire =>
    rw [hp] at hpoll habout
    have hkept := ok_persist h now
    have hforce := (frame_persist w now).1
    exact ok_setPoll hkept ⟨hpoll, copiesOk_copied h⟩ fun k hk => habout k (hforce ▸ hk)
  | storing build next fire copies =>
    rw [hp] at hpoll habout
    cases copies with
    | nil => exact ok_fired h hpoll.1 habout
    | cons copied copies =>
      have hkept := ok_store h (hpoll.2 copied mem_cons_self)
      have hforce := (frame_store w copied).1
      exact ok_setPoll hkept ⟨hpoll.1, fun c hc => hpoll.2 c (mem_cons_of_mem copied hc)⟩ fun k hk => habout k (hforce ▸ hk)
  | interface build next =>
    rw [runPoll]
    split
    · exact ok_sleep h
    · exact ok_interface h hp

/-! ### The other steps -/

theorem ok_setClear (h : Ok infos w) {call : Clear} (hcall : ClearOk infos call) (i : Nat) : Ok infos (w.setClear i call) := by
  refine ⟨h.active, h.force, h.about, h.poll, ?_, h.view, h.stored, h.exhausted, h.emitted⟩
  intro c hc
  rcases mem_or_eq_of_mem_set hc with hold | rfl
  · exact h.clears c hold
  · exact hcall

/-- With no build in force nothing is asked of the poll. -/
theorem ok_reset (h : Ok infos w) : Ok infos { w with monitor := w.monitor.reset, inForce := none } where
  active := rfl
  force _ hk := nomatch hk
  about _ hk := nomatch hk
  poll := h.poll
  clears := h.clears
  view _ hm := nomatch hm
  stored := h.stored
  exhausted := h.exhausted
  emitted := h.emitted

theorem ok_clearing (h : Ok infos w) {i : Nat} {call : Clear} (hcall : w.clears[i]? = some call) (now : Int) : Ok infos (runClear w i now call) := by
  have hok := h.clears call (mem_of_getElem? hcall)
  cases call with
  | persist =>
    have hcopies : ClearOk infos (.storing w.copied) := copiesOk_copied h
    exact ok_setClear (ok_persist h now) hcopies i
  | storing copies =>
    cases copies with
    | nil =>
      refine ok_setClear h ?_ i
      exact trivial
    | cons copied copies =>
      have hkept := ok_store h (hok copied mem_cons_self)
      refine ok_setClear hkept ?_ i
      exact fun c hc => hok c (mem_cons_of_mem copied hc)
  | clear =>
    refine ok_setClear (ok_reset h) ?_ i
    exact trivial
  | done => exact h

theorem ok_setBuild (h : Ok infos w) {k : Nat} (now : Int) (hcore : k = w.core) (habout : w.poll.about infos k) : Ok infos
      { w with
        monitor := w.monitor.SetBuild (infos k) now
        inForce := if (infos k).isEmpty then none else some k } := by
  cases hinfos : infos k with
  | nil => exact ok_reset h
  | cons info rest =>
    have hself : ∀ k', some k = some k' → k' = k := fun k' hk' => (Option.some.inj hk').symm
    refine ⟨rfl, ?_, ?_, h.poll, h.clears, (fun _ hm => nomatch hm), h.stored, h.exhausted, h.emitted⟩
    · intro k' hk'
      rw [hself k' hk', hinfos]
      exact ⟨hcore, fun _ => rfl⟩
    · intro k' hk'
      rw [hself k' hk']
      exact habout

theorem ok_step (h : Ok infos w) (e : Event) (hmeets : Meets infos w e) : Ok infos (step infos w e) := by
  cases e with
  | start k =>
    -- Nothing is in force, so the new core contradicts nothing.
    have hnone : w.inForce = none := by
      have hsome := h.active.symm.trans hmeets
      exact Option.isSome_eq_false_iff.1 hsome |> Option.isNone_iff_eq_none.1
    refine ⟨h.active, ?_, h.about, h.poll, h.clears, h.view, h.stored, h.exhausted, h.emitted⟩
    intro k' hk'
    exact nomatch hnone.symm.trans hk'
  | setBuild k now => exact ok_setBuild h now hmeets.1 hmeets.2
  | clear =>
    refine ⟨h.active, h.force, h.about, h.poll, ?_, h.view, h.stored, h.exhausted, h.emitted⟩
    intro c hc
    rcases mem_append.1 hc with hold | hnew
    · exact h.clears c hold
    · rw [mem_singleton.1 hnew]
      trivial
  | clearing i now =>
    rw [step]
    split
    · exact h
    · exact ok_clearing h ‹_› now
  | poll groups iface now => exact ok_poll h groups iface now
  | profile id latency =>
    exact ⟨h.active, h.force, h.about, h.poll, h.clears, h.view, h.stored, h.exhausted, h.emitted⟩

theorem health_kept (infos : Nat → List AutoSelectorBuildInfo) (core : Nat) (latency : Int → Option Int)
    (es : List Event) (h : Along (step infos) (Meets infos) (World.init core latency) es) :
    Healthy infos (run (step infos) (World.init core latency) es) := by
  have hstep : ∀ w e, Ok infos w → Meets infos w e → Ok infos (step infos w e) :=
    fun _ e hok hmeets => ok_step hok e hmeets
  exact healthy_of_ok (inv_run hstep es _ (ok_init infos core latency) h)

/-! ### Suspended statuses -/

def Poll.awake : Poll → Prop
  | .due _ next fire _ | .persist _ next fire | .storing _ next fire _ => Awake next fire
  | .interface _ next => next.suspended = false
  | _ => True

theorem awake_fired {fire : Bool} (h : Awake next fire) (build : Nat) : (Poll.fired build next fire).awake := by
  cases fire with
  | false => trivial
  | true => exact h rfl

/-- No poll fires on a suspended status, nor has one. -/
def Awakened (w : World) : Prop := w.poll.awake ∧ ∀ e ∈ w.emitted, e.suspended = false

theorem awakened_poll (h : Awakened w) (groups : Option (List AutoSelectorStatus)) (iface : Option Text)
    (now : Int) : Awakened (runPoll w groups iface now w.poll) := by
  obtain ⟨hpoll, hemitted⟩ := h
  cases hp : w.poll with
  | sleep =>
    rw [runPoll]
    split <;> exact ⟨trivial, hemitted⟩
  | query =>
    cases groups with
    | none | some groups => exact ⟨trivial, hemitted⟩
  | wanted answer =>
    rw [runPoll]
    split
    · split
      all_goals exact ⟨trivial, hemitted⟩
    · exact ⟨trivial, hemitted⟩
  | members build status next => exact ⟨trivial, hemitted⟩
  | commit build next usable =>
    rw [runPoll]
    split
    · exact ⟨commit_awake _ _ _ _, hemitted⟩
    · exact ⟨trivial, hemitted⟩
  | due build next fire now' =>
    rw [hp] at hpoll
    rw [runPoll]
    split
    · exact ⟨hpoll, hemitted⟩
    · exact ⟨awake_fired hpoll build, hemitted⟩
  | persist build next fire =>
    rw [hp] at hpoll
    exact ⟨hpoll, (frame_persist w now).2.2 ▸ hemitted⟩
  | storing build next fire copies =>
    rw [hp] at hpoll
    cases copies with
    | nil => exact ⟨awake_fired hpoll build, hemitted⟩
    | cons copied copies => exact ⟨hpoll, (frame_store w copied).2.2 ▸ hemitted⟩
  | interface build next =>
    rw [hp] at hpoll
    rw [runPoll]
    split
    · exact ⟨trivial, hemitted⟩
    · refine ⟨trivial, ?_⟩
      intro e he
      rcases mem_cons.1 he with rfl | he
      · exact hpoll
      · exact hemitted e he

theorem awakened_step (h : Awakened w) (e : Event) : Awakened (step infos w e) := by
  cases e with
  | start | setBuild | clear | profile => exact h
  | poll groups iface now => exact awakened_poll h groups iface now
  | clearing i now =>
    rw [step]
    split
    · exact h
    · rename_i call _
      cases call with
      | persist =>
        obtain ⟨-, hpoll, hemitted⟩ := frame_persist w now
        exact ⟨hpoll ▸ h.1, hemitted ▸ h.2⟩
      | storing copies =>
        cases copies with
        | nil => exact h
        | cons copied copies =>
          obtain ⟨-, hpoll, hemitted⟩ := frame_store w copied
          exact ⟨hpoll ▸ h.1, hemitted ▸ h.2⟩
      | clear | done => exact h

/-- Whatever comes into force within a poll, a suspended status never reaches `poolExhausted`. -/
theorem emitted_awake (infos : Nat → List AutoSelectorBuildInfo) (core : Nat) (latency : Int → Option Int)
    (es : List Event) : ∀ e ∈ (run (step infos) (World.init core latency) es).emitted, e.suspended = false := by
  have hstep : ∀ w e, Awakened w → Awakened (step infos w e) := fun _ e h => awakened_step h e
  have hinit : Awakened (World.init core latency) := ⟨trivial, nofun⟩
  exact (inv_run_all hstep es _ hinit).2

end Kept

/-! ## A restart -/

/-- Two builds of one selector, each with one member under the same tag. -/
def twoBuilds (k : Nat) : List AutoSelectorBuildInfo :=
  [⟨"proxy".toList, some ⟨7, "auto".toList⟩, [("pool-0".toList, some ⟨k + 1, "server".toList⟩)]⟩]

/-- The only member of the pool has failed. -/
def deadPool : AutoSelectorStatus where
  tag := "proxy".toList
  phase := "ready".toList
  selected := "pool-0".toList
  pinned := []
  suspended := false
  members_total := 1
  members_probed := 1
  members := [⟨"pool-0".toList, "dead".toList, true, 0, 3, ⟨1, false, false, false, 0, 0, 0, 3, 3, 0, 0, 0, 0, 0, []⟩⟩]
  figures := ⟨false, [], 0, 0, 0, 0, 0, 1, 0, 0, 0, []⟩

/-- Build `k` starts and the core answers a poll. -/
def answered (k : Nat) (now : Int) : List Event := [.start k, .setBuild k now, .poll none none now, .poll (some [deadPool]) none now]

/-- The rest of a poll, then a stop. -/
def finished (now : Int) : List Event :=
  List.replicate 4 (.poll none none now) ++ [.clear, .clearing 0 now, .clearing 0 now, .clearing 0 now, .clearing 0 now]

/-- Neither profile has a latency yet. -/
def unmeasured (id : Int) : Option Int := if id = 1 ∨ id = 2 then some 0 else none

theorem health_kept_session : Healthy twoBuilds
    (run (step twoBuilds) (World.init 0 unmeasured) (answered 0 1000 ++ finished 2000 ++ answered 1 3000)) :=
  health_kept twoBuilds 0 unmeasured _ (by decide)

/-- The pool stays dead for the time of grace. -/
def died : List Event :=
  answered 0 1000 ++ replicate 5 (.poll none none 1000) ++ .poll (some [deadPool]) none 21000 :: replicate 5 (.poll none none 21000)

theorem emitted_awake_died : ∃ e ∈ (run (step twoBuilds) (World.init 0 unmeasured) died).emitted, e.suspended = false := by
  have hemitted : (run (step twoBuilds) (World.init 0 unmeasured) died).emitted = [⟨7, false, 0, some 0⟩] := by rfl
  have hmem := hemitted ▸ mem_singleton_self (⟨7, false, 0, some 0⟩ : Emission)
  exact ⟨_, hmem, emitted_awake twoBuilds 0 unmeasured died _ hmem⟩

/-- A stop and a start come between the answer of the first core and the tags: the failed latency of profile 1
is stored in profile 2, and its exhaustion time is that of the second build. -/
def restarted : List Event :=
  answered 0 1000 ++ [.clear, .clearing 0 2000, .clearing 0 2000, .clearing 0 2000, .start 1, .setBuild 1 3000] ++
    List.replicate 4 (.poll none none 4000) ++
    [.clear, .clearing 1 5000, .clearing 1 5000, .clearing 1 5000]

theorem health_mixed : ¬Healthy twoBuilds (run (step twoBuilds) (World.init 0 unmeasured) restarted) := by
  intro h
  have hstored : (run (step twoBuilds) (World.init 0 unmeasured) restarted).stored = [⟨0, "pool-0".toList, 2, -1⟩] := by rfl
  have hprofile := h.stored ⟨0, "pool-0".toList, 2, -1⟩ (hstored ▸ mem_singleton_self _)
  exact absurd hprofile (by decide)

end Throne.Stats.AutoSelector
