import Throne.Api.Remote.RouterFeeds

/-!
# The change feed loses no change

A change that is signalled, or found by a poll, raises the last number of its topic above every cursor given
out before, and no answer to such a cursor leaves the topic out (`feed_kept`). A poll finds what changed
since the poll before, so a change is only found where there was one, and where what the API shows still
differs.
-/

namespace Throne.Api.Remote.Feeds

open Lib.Texts Lib.Json Lib.Runs List

/-! ## What a change is -/

/-- What a topic's data is read from. -/
inductive Source where
  | status
  | groups
  | profiles
  | routes
  | settings

/-- The topics that a source is behind. -/
def Source.topics : Source → ChangeTopics
  | .status => [.Status]
  | .groups => [.Groups, .Profiles]
  | .profiles => [.Profiles]
  | .routes => [.Status]
  | .settings => [.Settings, .Status]

/-- The source an event writes. -/
def Event.source : Event → Option Source
  | .status _ => some .status
  | .groups _ => some .groups
  | .profiles => some .profiles
  | .routes => some .routes
  | .settings _ => some .settings
  | _ => none

/-- Some request is held. -/
def World.Held (w : World) : Prop := ∃ pending ∈ w.router.eventWaiters_, pending.done = false

/-- An event that polls while a request is held: a tick, or the request that starts the ticks. -/
def Polls (w : World) : Event → Prop
  | .statusTick => w.repos.prepare_exit = false ∧ w.router.statusPoll_ = true ∧ w.Held
  | .getEvents request =>
    w.repos.prepare_exit = false ∧ w.router.statusPoll_ = false ∧ request.sameInstance = true ∧
      ∃ after timeout, readCursor request = .ok (after, timeout) ∧ timeout ≠ 0 ∧ w.router.changedAfter after = false
  | _ => False

section Feed

variable (q : QtHash)

/-- There was a poll to compare with. -/
def Stocked (w : World) : Prop := w.router.statusHash_.isSome = true ∧ w.router.repoRevisions_.isSome = true

/-- What the API shows of a source differs from what the last poll saw. -/
def Differs (w : World) : Source → Prop
  | .status => statusMoved q w.repos w.router = true
  | .groups => groupsHashNow q w.repos ≠ w.router.groupsHash_
  | .settings => settingsHashNow q w.repos ≠ w.router.settingsHash_
  | .profiles | .routes => True

/-- Events in which a change of a topic is noticed. -/
inductive Noticed (w : World) (T : ChangeTopic) : List Event → Prop
  | signal (topics : ChangeTopics) (h : T ∈ topics) : Noticed w T [.changed topics]
  | poll (e : Event) (source : Source) (es : List Event) (p : Event)
      (hsource : e.source = some source) (htopic : T ∈ source.topics) (hstocked : Stocked w)
      (hbetween : Along (step q) (fun w e => ¬Polls w e) (step q w e) es)
      (hpolls : Polls (run (step q) w (e :: es)) p)
      (hdiffers : Differs q (run (step q) w (e :: es)) source) :
      Noticed w T (e :: es ++ [p])

/-- Some answer gave out the cursor. -/
def Received (w : World) (c : Nat) : Prop := ∃ answer ∈ w.answered, ∃ changes, answer.response = .events c changes

/-- No answer given later to the cursor leaves the topic out. -/
def Tells (w w' : World) (c : Nat) (T : ChangeTopic) : Prop :=
  ∃ later, w'.answered = w.answered ++ later ∧ ∀ answer ∈ later, answer.after = some c →
    ∀ cursor changes, answer.response = .events cursor changes → T ∈ changes

/-- The requests that are held. -/
def World.held (w : World) : List FeedWaiter :=
  w.router.eventWaiters_.filter fun pending => !pending.done

end Feed

/-! ## What moves on -/

variable {T : ChangeTopic}

section Advance

/-- Numbers only grow, and a topic that moves gets a new one. -/
structure Advance (r r' : Router) : Prop where
  seq : r.changeSeq_ ≤ r'.changeSeq_
  topics : ∀ T, r'.topicSeqs_ T = r.topicSeqs_ T ∨ r.changeSeq_ < r'.topicSeqs_ T ∧ r'.topicSeqs_ T ≤ r'.changeSeq_

variable {r r' r'' : Router}

theorem Advance.of_eq (hseq : r'.changeSeq_ = r.changeSeq_) (htopics : r'.topicSeqs_ = r.topicSeqs_) : Advance r r' :=
  ⟨hseq.ge, fun T => .inl (by rw [htopics])⟩

theorem Advance.trans (h : Advance r r') (h' : Advance r' r'') : Advance r r'' where
  seq := h.seq.trans h'.seq
  topics T := by
    rcases h'.topics T with hsame | ⟨hnew, hle⟩
    · rcases h.topics T with hsame' | ⟨hnew', hle'⟩
      · exact .inl (hsame.trans hsame')
      · exact .inr ⟨hsame ▸ hnew', hsame ▸ hle'.trans h'.seq⟩
    · exact .inr ⟨lt_of_le_of_lt h.seq hnew, hle⟩

theorem advance_noteChanged (r : Router) (topics : ChangeTopics) : Advance r (r.noteChanged topics) := by
  rw [Router.noteChanged]
  split
  · exact .of_eq rfl rfl
  · refine ⟨Nat.le_succ _, ?_⟩
    intro T
    by_cases hmem : topics.contains T = true
    · right
      simp only [hmem, if_true]
      exact ⟨Nat.lt_succ_self _, Nat.le_refl _⟩
    · left
      simp only [hmem]
      rfl

theorem Advance.noteChanged (h : Advance r r') (topics : ChangeTopics) : Advance r (r'.noteChanged topics) := h.trans (advance_noteChanged r' topics)

/-- A topic that is noted gets a new number. -/
theorem noteChanged_topic {topics : ChangeTopics} (h : T ∈ topics) : r.changeSeq_ < (r.noteChanged topics).topicSeqs_ T := by
  have hne : topics.isEmpty = false := by
    cases topics with
    | nil => cases h
    | cons => rfl
  have hmem : topics.contains T = true := contains_iff_mem.2 h
  rw [Router.noteChanged, hne]
  simp only [hmem, if_true, Bool.false_eq_true, if_false]
  exact Nat.lt_succ_self _

theorem noteChanged_topic_of (hseq : r'.changeSeq_ = r.changeSeq_) {topics : ChangeTopics} (h : T ∈ topics) : r.changeSeq_ < (r'.noteChanged topics).topicSeqs_ T := by
  rw [← hseq]
  exact noteChanged_topic h

theorem noteChanged_waiters (r : Router) (topics : ChangeTopics) : (r.noteChanged topics).eventWaiters_ = r.eventWaiters_ := by
  rw [Router.noteChanged]
  split <;> rfl

theorem noteChanged_polled (r : Router) (topics : ChangeTopics) :
    (r.noteChanged topics).repoRevisions_ = r.repoRevisions_ ∧ (r.noteChanged topics).groupsHash_ = r.groupsHash_ ∧
    (r.noteChanged topics).settingsHash_ = r.settingsHash_ ∧ (r.noteChanged topics).statusHash_ = r.statusHash_ := by
  rw [Router.noteChanged]
  split <;> exact ⟨rfl, rfl, rfl, rfl⟩

variable (q : QtHash) (repos : Repos)

theorem advance_pollRepos (r : Router) : Advance r (pollRepos q repos r) := by
  rw [pollRepos]
  split
  · exact .of_eq rfl rfl
  · apply Advance.noteChanged
    exact .of_eq rfl rfl

/-- What has changed in the repositories gets a new number. -/
theorem pollRepos_topic {before : RepoRevisions} (hbefore : r.repoRevisions_ = some before) (h : T ∈ repoTopics q repos r before) :
    r.changeSeq_ < (pollRepos q repos r).topicSeqs_ T := by
  rw [pollRepos, hbefore]
  apply noteChanged_topic_of
  · rfl
  · exact h

theorem pollRepos_waiters (r : Router) : (pollRepos q repos r).eventWaiters_ = r.eventWaiters_ := by
  rw [pollRepos]
  split
  · rfl
  · exact noteChanged_waiters _ _

end Advance

/-! ## A poll -/

section Poll

variable {q : QtHash} {w : World}

/-- What a poll keeps of the router before it compares. -/
def polled (w : World) : Router := { w.router with eventWaiters_ := w.held }

/-- What a poll compares. -/
theorem pollStatus_compares (hexit : w.repos.prepare_exit = false) (hheld : w.held.isEmpty = false) : w.pollStatus q = { w with
        router := pollRepos q w.repos
          { (if statusMoved q w.repos (polled w) then (polled w).noteChanged [.Status] else polled w)
            with statusHash_ := some (statusHashNow q w.repos) } } := by
  rw [World.pollStatus, hexit]
  rw [World.held] at hheld
  simp only [hheld, Bool.false_eq_true, if_false]
  rfl

/-- A poll with nothing held stops. -/
theorem pollStatus_stops (hexit : w.repos.prepare_exit = false) (hheld : w.held.isEmpty = true) :
    w.pollStatus q = { w with router := { polled w with statusPoll_ := false } } := by
  rw [World.pollStatus, hexit]
  rw [World.held] at hheld
  simp only [hheld, Bool.false_eq_true, if_false, if_true]
  rfl

theorem pollStatus_exit (hexit : w.repos.prepare_exit = true) : w.pollStatus q = w.releaseFeeds := by
  rw [World.pollStatus, hexit]
  rfl

theorem held_nonempty : w.held.isEmpty = false ↔ w.Held := by
  rw [World.Held, World.held]
  constructor
  · intro hsome
    cases hlist : w.router.eventWaiters_.filter fun pending => !pending.done with
    | nil =>
      rw [hlist] at hsome
      cases hsome
    | cons pending rest =>
      have hmem : pending ∈ w.router.eventWaiters_.filter fun pending => !pending.done := by
        rw [hlist]
        exact mem_cons_self
      rw [mem_filter, Bool.not_eq_true'] at hmem
      exact ⟨pending, hmem⟩
  · rintro ⟨pending, hmem, hdone⟩
    rw [isEmpty_eq_false_iff_exists_mem]
    exact ⟨pending, mem_filter.2 ⟨hmem, by rw [hdone]; rfl⟩⟩

theorem advance_pollStatus (q : QtHash) (w : World) : Advance w.router (w.pollStatus q).router := by
  cases hexit : w.repos.prepare_exit with
  | true =>
    rw [pollStatus_exit hexit]
    exact .of_eq rfl rfl
  | false =>
    cases hheld : w.held.isEmpty with
    | true =>
      rw [pollStatus_stops hexit hheld]
      exact .of_eq rfl rfl
    | false =>
      rw [pollStatus_compares hexit hheld]
      refine Advance.trans ?_ (advance_pollRepos q w.repos _)
      have hpolled : Advance w.router (polled w) := .of_eq rfl rfl
      split
      · exact (hpolled.noteChanged [.Status]).trans (.of_eq rfl rfl)
      · exact hpolled.trans (.of_eq rfl rfl)

/-- What a poll finds gets a new number. -/
theorem pollStatus_topic (hexit : w.repos.prepare_exit = false) (hheld : w.Held) (h : statusMoved q w.repos w.router = true ∧ T = .Status ∨
    ∃ before ∈ w.router.repoRevisions_, T ∈ repoTopics q w.repos w.router before) :
    w.router.changeSeq_ < (w.pollStatus q).router.topicSeqs_ T := by
  rw [pollStatus_compares hexit (held_nonempty.2 hheld)]
  obtain ⟨r, hr⟩ : ∃ r, r = (if statusMoved q w.repos (polled w) then
    (polled w).noteChanged [.Status] else polled w) := ⟨_, rfl⟩
  rw [← hr]
  have hadvance : Advance w.router r := by
    have hpolled : Advance w.router (polled w) := .of_eq rfl rfl
    rw [hr]
    split
    · exact hpolled.noteChanged [.Status]
    · exact hpolled
  rcases h with ⟨hmoved, rfl⟩ | ⟨before, hbefore, hmem⟩
  · have hnoted : w.router.changeSeq_ < r.topicSeqs_ .Status := by
      have hmoved' : statusMoved q w.repos (polled w) = true := hmoved
      rw [hr, if_pos hmoved']
      exact noteChanged_topic (r := polled w) (mem_singleton.2 rfl)
    have hstatus : Advance r { r with statusHash_ := some (statusHashNow q w.repos) } :=
      .of_eq rfl rfl
    rcases (hstatus.trans (advance_pollRepos q w.repos _)).topics .Status with hsame | ⟨hnew, -⟩
    · rw [hsame]
      exact hnoted
    · exact lt_of_le_of_lt hadvance.seq hnew
  · have hkept : r.repoRevisions_ = w.router.repoRevisions_ ∧ r.groupsHash_ = w.router.groupsHash_ ∧ r.settingsHash_ = w.router.settingsHash_ := by
      rw [hr]
      split
      · have hpolled := noteChanged_polled (polled w) [.Status]
        exact ⟨hpolled.1, hpolled.2.1, hpolled.2.2.1⟩
      · exact ⟨rfl, rfl, rfl⟩
    have hsome : r.repoRevisions_ = some before := hkept.1.trans hbefore
    have hmem' : T ∈ repoTopics q w.repos { r with statusHash_ := some (statusHashNow q w.repos) }
        before := by
      rw [repoTopics, hkept.2.1, hkept.2.2]
      exact hmem
    exact lt_of_le_of_lt hadvance.seq (pollRepos_topic q w.repos (r := { r with
      statusHash_ := some (statusHashNow q w.repos) }) hsome hmem')

end Poll

/-! ## Which requests are held -/

section Held

variable {q : QtHash} {w : World}

theorem mem_held {pending : FeedWaiter} : pending ∈ w.held ↔ pending ∈ w.router.eventWaiters_ ∧ pending.done = false := by
  rw [World.held, mem_filter, Bool.not_eq_true']

theorem held_releaseFeeds (w : World) : w.releaseFeeds.held = [] := rfl

/-- A poll answers nothing, unless Throne exits. -/
theorem pollStatus_keeps (hexit : w.repos.prepare_exit = false) :
    (w.pollStatus q).held = w.held ∧ (w.pollStatus q).answered = w.answered ∧ (w.pollStatus q).asked = w.asked := by
  have hheld : w.held.filter (fun pending => !pending.done) = w.held := by
    rw [filter_eq_self]
    intro pending hpending
    rw [Bool.not_eq_true']
    exact (mem_held.1 hpending).2
  cases hempty : w.held.isEmpty with
  | true =>
    rw [pollStatus_stops hexit hempty]
    exact ⟨hheld, rfl, rfl⟩
  | false =>
    rw [pollStatus_compares hexit hempty]
    refine ⟨?_, rfl, rfl⟩
    rw [World.held]
    simp only [pollRepos_waiters]
    split
    · rw [noteChanged_waiters]
      exact hheld
    · exact hheld

theorem pollStatus_repos (q : QtHash) (w : World) : (w.pollStatus q).repos = w.repos := by
  cases hexit : w.repos.prepare_exit with
  | true =>
    rw [pollStatus_exit hexit]
    rfl
  | false =>
    cases hempty : w.held.isEmpty with
    | true =>
      rw [pollStatus_stops hexit hempty]
    | false =>
      rw [pollStatus_compares hexit hempty]

/-- The ways a request goes: it is answered at once, held, or held as the first. -/
theorem getEvents_cases (q : QtHash) (w : World) (request : Request) :
    (∃ after response, w.getEvents q request = w.respond after response ∧ ((∃ message, response = .badRequest message) ∨
    ∃ from' everything, after = some from' ∧ response = w.router.eventsResponse from' everything)) ∨
    (∃ after, w.router.changedAfter after = false ∧ w.router.statusPoll_ = true ∧ w.getEvents q request = w.hold after) ∨
    ∃ after timeout, readCursor request = .ok (after, timeout) ∧ request.sameInstance = true ∧
    timeout ≠ 0 ∧ w.router.changedAfter after = false ∧ w.router.statusPoll_ = false ∧
    w.getEvents q request = (w.hold after).startPoll.pollStatus q := by
  rw [World.getEvents]
  cases hread : readCursor request with
  | error problem => exact .inl ⟨none, .badRequest problem, rfl, .inl ⟨problem, rfl⟩⟩
  | ok cursor =>
    obtain ⟨after, timeout⟩ := cursor
    simp only
    cases hsame : request.sameInstance with
    | false => exact .inl ⟨some after, _, rfl, .inr ⟨after, true, rfl, rfl⟩⟩
    | true =>
      simp only [Bool.not_true, Bool.false_eq_true, if_false]
      split
      · exact .inl ⟨some after, _, rfl, .inr ⟨after, false, rfl, rfl⟩⟩
      · next hwait =>
        rw [not_or, Bool.not_eq_true] at hwait
        right
        split
        · next hpoll => exact .inl ⟨after, hwait.2, hpoll, rfl⟩
        · next hpoll =>
          rw [Bool.not_eq_true] at hpoll
          exact .inr ⟨after, timeout, rfl, trivial, hwait.1, hwait.2, hpoll, rfl⟩

theorem held_hold (w : World) (after : Nat) : (w.hold after).held = w.held ++ [⟨w.asked, after, false⟩] := by
  rw [World.held, World.hold]
  simp only [filter_append]
  rfl

end Held

/-! ## What a step answers -/

section Answers

variable {q : QtHash} {w : World}

/-- An answer that has every topic with a number above the cursor of its request. -/
def Faithful (r : Router) (answer : Answer) : Prop :=
  ∀ cursor changes, answer.response = .events cursor changes → cursor = r.changeSeq_ ∧
    ∃ after, answer.after = some after ∧ ∀ T, after < r.topicSeqs_ T → T ∈ changes

theorem mem_kTopics (T : ChangeTopic) : T ∈ kTopics := by
  cases T <;> decide

theorem faithful_events (r : Router) (id after : Nat) (everything : Bool) : Faithful r ⟨id, some after, r.eventsResponse after everything⟩ := by
  intro cursor changes hresponse
  rw [Router.eventsResponse] at hresponse
  cases hresponse
  refine ⟨rfl, after, rfl, ?_⟩
  intro T hnew
  rw [mem_filter, decide_eq_true hnew, Bool.or_true]
  exact ⟨mem_kTopics T, rfl⟩

theorem faithful_exiting (r : Router) (id : Nat) (after : Option Nat) : Faithful r ⟨id, after, .exiting⟩ := nofun

/-- The answers of a step. -/
def Answers (w w' : World) : Prop := ∃ later, w'.answered = w.answered ++ later ∧ ∀ answer ∈ later, Faithful w.router answer

theorem Answers.of_eq {w' : World} (h : w'.answered = w.answered) : Answers w w' :=
  ⟨[], by rw [h, append_nil], nofun⟩

theorem answers_releaseFeeds (w : World) : Answers w w.releaseFeeds := by
  refine ⟨_, rfl, ?_⟩
  intro answer hmem
  obtain ⟨pending, -, rfl⟩ := mem_map.1 hmem
  exact faithful_exiting _ _ _

theorem answers_settleEvents (w : World) : Answers w w.settleEvents := by
  rw [World.settleEvents]
  split
  · exact answers_releaseFeeds w
  · refine ⟨_, rfl, ?_⟩
    intro answer hmem
    obtain ⟨pending, -, rfl⟩ := mem_map.1 hmem
    exact faithful_events _ _ _ _

theorem answers_pollStatus (q : QtHash) (w : World) : Answers w (w.pollStatus q) := by
  cases hexit : w.repos.prepare_exit with
  | true =>
    rw [pollStatus_exit hexit]
    exact answers_releaseFeeds w
  | false => exact .of_eq (pollStatus_keeps hexit).2.1

theorem answers_deadline (w : World) (id : Nat) : Answers w (w.deadline id) := by
  rw [World.deadline]
  split
  · exact .of_eq rfl
  · refine ⟨_, rfl, ?_⟩
    intro answer hmem
    rw [mem_singleton] at hmem
    rw [hmem]
    exact faithful_events _ _ _ _

theorem answers_getEvents (q : QtHash) (w : World) (request : Request) : Answers w (w.getEvents q request) := by
  rcases getEvents_cases q w request with ⟨after, response, hget, hresponse⟩ | ⟨after, -, -, hget⟩ |
    ⟨after, timeout, -, -, -, -, -, hget⟩
  · rw [hget]
    refine ⟨_, rfl, ?_⟩
    intro answer hmem
    rw [mem_singleton] at hmem
    rw [hmem]
    rcases hresponse with ⟨message, rfl⟩ | ⟨from', everything, rfl, rfl⟩
    · exact nofun
    · exact faithful_events _ _ _ _
  · rw [hget]
    exact .of_eq rfl
  · rw [hget]
    exact answers_pollStatus q (w.hold after).startPoll

theorem answers_step (q : QtHash) (w : World) (e : Event) : Answers w (step q w e) := by
  cases e with
  | settle =>
    rw [step]
    split
    · exact answers_settleEvents { w with router := { w.router with eventSettle_ := false } }
    · exact .of_eq rfl
  | statusTick =>
    rw [step]
    split
    · exact answers_pollStatus q w
    · exact .of_eq rfl
  | deadline id => exact answers_deadline w id
  | getEvents request => exact answers_getEvents q w request
  | changed | status | groups | profiles | routes | settings | exit => exact .of_eq rfl

theorem advance_step (q : QtHash) (w : World) (e : Event) : Advance w.router (step q w e).router := by
  cases e with
  | changed topics => exact advance_noteChanged _ _
  | settle =>
    rw [step]
    split
    · rw [World.settleEvents]
      split <;> exact .of_eq rfl rfl
    · exact .of_eq rfl rfl
  | statusTick =>
    rw [step]
    split
    · exact advance_pollStatus q w
    · exact .of_eq rfl rfl
  | deadline id =>
    rw [step, World.deadline]
    split <;> exact .of_eq rfl rfl
  | getEvents request =>
    rw [step]
    rcases getEvents_cases q w request with ⟨after, response, hget, -⟩ | ⟨after, -, -, hget⟩ |
      ⟨after, timeout, -, -, -, -, -, hget⟩
    · rw [hget]
      exact .of_eq rfl rfl
    · rw [hget]
      exact .of_eq rfl rfl
    · rw [hget]
      have hstart : Advance w.router (w.hold after).startPoll.router := .of_eq rfl rfl
      exact hstart.trans (advance_pollStatus q _)
  | status | groups | profiles | routes | settings | exit => exact .of_eq rfl rfl

end Answers

/-! ## The invariant -/

variable {e : Event} {r : Router} {source : Source}

section Invariant

/-- A held request with news has the settling timer running. -/
def SettleOk (r : Router) : Prop :=
  ∀ pending ∈ r.eventWaiters_, pending.done = false → r.changedAfter pending.after = true → r.eventSettle_ = true

/-- The revision of a source; the status has none. -/
def RepoRevisions.at (revisions : RepoRevisions) : Source → Nat
  | .status => 0
  | .groups => revisions.groups
  | .profiles => revisions.profiles
  | .routes => revisions.routes
  | .settings => revisions.settings

/-- The requests that were answered and those that are held. -/
def World.places (w : World) : List Nat := w.answered.map Answer.id ++ w.held.map FeedWaiter.id

/-- The invariant. -/
structure Ok (w : World) : Prop where
  seqs : ∀ T, w.router.topicSeqs_ T ≤ w.router.changeSeq_
  settle : SettleOk w.router
  cursors : ∀ answer ∈ w.answered, ∀ cursor changes, answer.response = .events cursor changes → cursor ≤ w.router.changeSeq_
  places : w.places.Perm (List.range w.asked)
  revisions : ∀ before ∈ w.router.repoRevisions_, ∀ source, before.at source ≤ w.repos.revisions.at source

variable {q : QtHash} {w : World}

theorem ok_init (repos : Repos) : Ok (World.init repos) where
  seqs _ := Nat.le_refl _
  settle _ hmem := absurd hmem not_mem_nil
  cursors _ hmem := absurd hmem not_mem_nil
  places := List.Perm.refl _
  revisions _ hnone := nomatch hnone

theorem seqs_advance {r' : Router} (h : ∀ T, r.topicSeqs_ T ≤ r.changeSeq_) (hadvance : Advance r r') : ∀ T, r'.topicSeqs_ T ≤ r'.changeSeq_ := by
  intro T
  rcases hadvance.topics T with hsame | ⟨-, hle⟩
  · rw [hsame]
    exact (h T).trans hadvance.seq
  · exact hle

/-! ### The settling timer -/

theorem settleOk_noteChanged (h : SettleOk r) (topics : ChangeTopics) : SettleOk (r.noteChanged topics) := by
  rw [Router.noteChanged]
  split
  · exact h
  · intro pending hmem _ _
    have hsome : r.eventWaiters_.isEmpty = false := by
      rw [isEmpty_eq_false_iff_exists_mem]
      exact ⟨pending, hmem⟩
    simp only [hsome, Bool.not_false, Bool.true_or]

/-- Fields that the timer does not depend on. -/
theorem SettleOk.of_eq {r' : Router} (h : SettleOk r) (hsettle : r'.eventSettle_ = r.eventSettle_) (htopics : r'.topicSeqs_ = r.topicSeqs_)
    (hwaiters : ∀ pending ∈ r'.eventWaiters_, pending.done = false → pending ∈ r.eventWaiters_) : SettleOk r' := by
  intro pending hmem hdone hnew
  rw [hsettle]
  apply h pending (hwaiters pending hmem hdone) hdone
  rw [Router.changedAfter, htopics] at hnew
  exact hnew

theorem settleOk_pollRepos (h : SettleOk r) (q : QtHash) (repos : Repos) : SettleOk (pollRepos q repos r) := by
  rw [pollRepos]
  split
  · exact h.of_eq rfl rfl fun _ hmem _ => hmem
  · apply settleOk_noteChanged
    exact h.of_eq rfl rfl fun _ hmem _ => hmem

theorem settleOk_pollStatus (h : SettleOk w.router) (q : QtHash) : SettleOk (w.pollStatus q).router := by
  have hpolled : SettleOk (polled w) :=
    h.of_eq rfl rfl fun pending hmem _ => (mem_held.1 hmem).1
  cases hexit : w.repos.prepare_exit with
  | true =>
    rw [pollStatus_exit hexit]
    exact nofun
  | false =>
    cases hheld : w.held.isEmpty with
    | true =>
      rw [pollStatus_stops hexit hheld]
      exact hpolled.of_eq rfl rfl fun _ hmem _ => hmem
    | false =>
      rw [pollStatus_compares hexit hheld]
      apply settleOk_pollRepos
      split
      · exact (settleOk_noteChanged hpolled [.Status]).of_eq rfl rfl fun _ hmem _ => hmem
      · exact hpolled.of_eq rfl rfl fun _ hmem _ => hmem

theorem settleOk_step (h : SettleOk w.router) (q : QtHash) (e : Event) : SettleOk (step q w e).router := by
  cases e with
  | changed topics => exact settleOk_noteChanged h topics
  | settle =>
    rw [step]
    split
    · rw [World.settleEvents]
      split
      · exact nofun
      · -- What has no news is left.
        intro pending hmem _ hnew
        rw [mem_filter, Bool.and_eq_true, Bool.not_eq_true', Bool.not_eq_true'] at hmem
        exact absurd (hnew.symm.trans hmem.2.2) (by decide)
    · exact h
  | statusTick =>
    rw [step]
    split
    · exact settleOk_pollStatus h q
    · exact h
  | deadline id =>
    rw [step, World.deadline]
    split
    · exact h
    · refine h.of_eq rfl rfl ?_
      intro pending hmem hdone
      obtain ⟨other, hother, rfl⟩ := mem_map.1 hmem
      split at hdone
      · cases hdone
      · next hne =>
        rw [if_neg hne]
        exact hother
  | getEvents request =>
    have hhold : ∀ after, w.router.changedAfter after = false → SettleOk (w.hold after).router := by
      intro after hold pending hmem hdone hnew
      rcases mem_append.1 hmem with hmem | hmem
      · exact h pending hmem hdone hnew
      · rw [mem_singleton] at hmem
        rw [hmem] at hnew
        exact absurd (hnew.symm.trans hold) (by decide)
    rw [step]
    rcases getEvents_cases q w request with ⟨after, response, hget, -⟩ | ⟨after, hnone, -, hget⟩ |
      ⟨after, timeout, -, -, -, hnone, -, hget⟩
    · rw [hget]
      exact h
    · rw [hget]
      exact hhold after hnone
    · rw [hget]
      apply settleOk_pollStatus
      exact (hhold after hnone).of_eq rfl rfl fun _ hmem _ => hmem
  | status | groups | profiles | routes | settings | exit => exact h

/-! ### Every request is in one place -/

theorem places_releaseFeeds (w : World) : w.releaseFeeds.places = w.places := by
  rw [World.places, held_releaseFeeds, World.releaseFeeds, World.places]
  simp only [map_append, map_map, map_nil, append_nil]
  rfl

theorem places_settleEvents (w : World) : w.settleEvents.places.Perm w.places := by
  rw [World.settleEvents]
  split
  · rw [places_releaseFeeds]
  · have hsplit : (w.held.filter (fun pending => w.router.changedAfter pending.after) ++
        w.held.filter (fun pending => !w.router.changedAfter pending.after)).Perm w.held :=
      filter_append_perm _ _
    rw [World.places, World.places, World.held]
    simp only [map_append, map_map, append_assoc, filter_filter]
    apply List.Perm.append_left
    have hids := hsplit.map FeedWaiter.id
    rw [World.held, filter_filter, filter_filter, map_append] at hids
    refine List.Perm.trans (List.Perm.of_eq ?_) hids
    congr 1
    · rw [filter_congr (q := fun pending => w.router.changedAfter pending.after && !pending.done)]
      · rfl
      · intro pending _
        rw [Bool.and_comm]
    · congr 1
      apply filter_congr
      intro pending _
      cases pending.done <;> cases w.router.changedAfter pending.after <;> rfl

theorem places_pollStatus (q : QtHash) (w : World) : (w.pollStatus q).places = w.places := by
  cases hexit : w.repos.prepare_exit with
  | true =>
    rw [pollStatus_exit hexit]
    exact places_releaseFeeds w
  | false =>
    obtain ⟨hheld, hanswered, -⟩ := pollStatus_keeps (q := q) hexit
    rw [World.places, hheld, hanswered, World.places]

theorem asked_pollStatus (q : QtHash) (w : World) : (w.pollStatus q).asked = w.asked := by
  cases hexit : w.repos.prepare_exit with
  | true =>
    rw [pollStatus_exit hexit]
    rfl
  | false => exact (pollStatus_keeps hexit).2.2

theorem Ok.nodup (h : Ok w) : w.places.Nodup := h.places.nodup_iff.2 nodup_range

/-- A wait that runs out moves its request from those held to those answered. -/
theorem deadline_held (id : Nat) : w.deadline id = w ∨ ∃ pending ∈ w.held, pending.id = id ∧
    (w.deadline id).held = w.held.filter (fun other => other.id != id) ∧ (w.deadline id).answered = w.answered ++
    [⟨id, some pending.after, w.router.eventsResponse pending.after false⟩] ∧ (w.deadline id).asked = w.asked := by
  rw [World.deadline]
  split
  · exact .inl rfl
  · next pending hfind =>
    right
    have hfound : (pending.id == id && !pending.done) = true :=
      find?_some (p := fun pending : FeedWaiter => pending.id == id && !pending.done) hfind
    rw [Bool.and_eq_true, beq_iff_eq, Bool.not_eq_true'] at hfound
    refine ⟨pending, mem_held.2 ⟨mem_of_find?_eq_some hfind, hfound.2⟩, hfound.1, ?_, rfl, rfl⟩
    rw [World.held, World.held, filter_map, filter_filter]
    have hkept : ∀ other : FeedWaiter, ((fun pending : FeedWaiter => !pending.done) ∘ fun other : FeedWaiter =>
          if other.id = id then { other with done := true } else other) other =
            (other.id != id && !other.done) := by
      intro other
      rw [Function.comp]
      by_cases hid : other.id = id
      · rw [if_pos hid, hid, bne_self_eq_false]
        rfl
      · rw [if_neg hid, bne_iff_ne.2 hid, Bool.true_and]
    rw [filter_congr fun other _ => hkept other, map_congr_left, map_id]
    intro other hother
    rw [mem_filter, Bool.and_eq_true, bne_iff_ne] at hother
    rw [if_neg hother.2.1]
    rfl

theorem places_deadline (h : Ok w) (id : Nat) : (w.deadline id).places.Perm w.places := by
  rcases deadline_held (w := w) id with hsame | ⟨pending, hmem, rfl, hheld, hanswered, -⟩
  · rw [hsame]
  · have hnodup : (w.held.map FeedWaiter.id).Nodup := (nodup_append.1 h.nodup).2.1
    rw [World.places, hheld, hanswered, World.places, map_append, append_assoc]
    apply List.Perm.append_left
    have hids : (w.held.filter fun other => other.id != pending.id).map FeedWaiter.id = (w.held.map FeedWaiter.id).erase pending.id := by
      rw [List.Nodup.erase_eq_filter hnodup pending.id, filter_map]
      rfl
    have hperm : (w.held.map FeedWaiter.id).Perm (pending.id :: (w.held.map FeedWaiter.id).erase pending.id) :=
      perm_cons_erase (mem_map_of_mem hmem)
    rw [hids]
    exact hperm.symm

theorem places_hold (w : World) (after : Nat) : (w.hold after).places = w.places ++ [w.asked] := by
  rw [World.places, held_hold, World.places, map_append, append_assoc]
  rfl

theorem places_respond (w : World) (after : Option Nat) (response : Response) : (w.respond after response).places.Perm (w.places ++ [w.asked]) := by
  have hheld : (w.respond after response).held = w.held := rfl
  rw [World.places, hheld, World.places, World.respond]
  simp only [map_append, append_assoc]
  exact List.Perm.append_left _ perm_append_comm

theorem places_step (h : Ok w) (q : QtHash) (e : Event) : (step q w e).places.Perm (List.range (step q w e).asked) := by
  cases e with
  | changed topics =>
    have hheld : (step q w (.changed topics)).held = w.held := by
      rw [step, World.held, World.held]
      simp only [noteChanged_waiters]
    rw [World.places, hheld]
    exact h.places
  | settle =>
    rw [step]
    split
    · refine (places_settleEvents _).trans ?_
      have hasked : ∀ w' : World, w'.settleEvents.asked = w'.asked := by
        intro w'
        rw [World.settleEvents]
        split <;> rfl
      rw [hasked]
      exact h.places
    · exact h.places
  | statusTick =>
    rw [step]
    split
    · rw [places_pollStatus, asked_pollStatus]
      exact h.places
    · exact h.places
  | deadline id =>
    rw [step]
    refine (places_deadline h id).trans ?_
    rcases deadline_held (w := w) id with hsame | ⟨-, -, -, -, -, hasked⟩
    · rw [hsame]
      exact h.places
    · rw [hasked]
      exact h.places
  | getEvents request =>
    have hone : (w.places ++ [w.asked]).Perm (List.range (w.asked + 1)) := by
      rw [range_succ]
      exact h.places.append_right _
    rw [step]
    rcases getEvents_cases q w request with ⟨after, response, hget, -⟩ | ⟨after, -, -, hget⟩ |
      ⟨after, timeout, -, -, -, -, -, hget⟩
    · rw [hget]
      exact (places_respond w after response).trans hone
    · rw [hget, places_hold]
      exact hone
    · rw [hget, places_pollStatus, asked_pollStatus]
      have hstart : (w.hold after).startPoll.places = (w.hold after).places := rfl
      rw [hstart, places_hold]
      exact hone
  | status | groups | profiles | routes | settings | exit => exact h.places

/-! ### The revisions -/

theorem write_revisions (repos : Repos) (e : Event) (source : Source) : repos.revisions.at source ≤ (repos.write e).revisions.at source := by
  cases e <;> cases source <;> first | exact Nat.le_refl _ | exact Nat.le_succ _

/-- A write raises the revision of its source. -/
theorem write_source (repos : Repos) (h : e.source = some source) :
    source = .status ∨ repos.revisions.at source < (repos.write e).revisions.at source := by
  cases e with
  | status => exact .inl (Option.some.inj h).symm
  | groups | profiles | routes | settings =>
    rw [← Option.some.inj h]
    exact .inr (Nat.lt_succ_self _)
  | changed | exit | settle | statusTick | deadline | getEvents => cases h

/-- What the last poll saw stays, but for a poll. -/
structure SameStock (r r' : Router) : Prop where
  statusHash_ : r'.statusHash_ = r.statusHash_
  repoRevisions_ : r'.repoRevisions_ = r.repoRevisions_

theorem SameStock.refl (r : Router) : SameStock r r := ⟨rfl, rfl⟩

theorem sameStock_noteChanged (r : Router) (topics : ChangeTopics) : SameStock r (r.noteChanged topics) :=
  ⟨(noteChanged_polled r topics).2.2.2, (noteChanged_polled r topics).1⟩

theorem sameStock_pollStatus (hnone : w.repos.prepare_exit = true ∨ ¬w.Held) : SameStock w.router (w.pollStatus q).router := by
  cases hexit : w.repos.prepare_exit with
  | true =>
    rw [pollStatus_exit hexit]
    exact ⟨rfl, rfl⟩
  | false =>
    have hempty : w.held.isEmpty = true := by
      rw [← Bool.not_eq_false, held_nonempty]
      exact hnone.resolve_left (by rw [hexit]; decide)
    rw [pollStatus_stops hexit hempty]
    exact ⟨rfl, rfl⟩

/-- A poll takes stock. -/
theorem stock_pollStatus (hexit : w.repos.prepare_exit = false) (hheld : w.Held) :
    (w.pollStatus q).router.repoRevisions_ = some w.repos.revisions := by
  rw [pollStatus_compares hexit (held_nonempty.2 hheld)]
  simp only
  rw [pollRepos]
  split
  · rfl
  · exact (noteChanged_polled _ _).1

theorem held_start (w : World) (after : Nat) : (w.hold after).startPoll.Held :=
  ⟨⟨w.asked, after, false⟩, mem_append_right _ mem_cons_self, rfl⟩

theorem sameStock_step (hpolls : ¬Polls w e) : SameStock w.router (step q w e).router := by
  cases e with
  | changed topics => exact sameStock_noteChanged _ _
  | settle =>
    rw [step]
    split
    · rw [World.settleEvents]
      split <;> exact ⟨rfl, rfl⟩
    · exact .refl _
  | statusTick =>
    rw [step]
    split
    · next hpoll =>
      apply sameStock_pollStatus
      cases hexit : w.repos.prepare_exit with
      | true => exact .inl rfl
      | false => exact .inr fun hheld => hpolls ⟨hexit, hpoll, hheld⟩
    · exact .refl _
  | deadline id =>
    rw [step, World.deadline]
    split
    · exact .refl _
    · exact ⟨rfl, rfl⟩
  | getEvents request =>
    rw [step]
    rcases getEvents_cases q w request with ⟨after, response, hget, -⟩ | ⟨after, -, -, hget⟩ |
      ⟨after, timeout, hread, hsame, htimeout, hnone, hpoll, hget⟩
    · rw [hget]
      exact ⟨rfl, rfl⟩
    · rw [hget]
      exact ⟨rfl, rfl⟩
    · rw [hget]
      have hexit : w.repos.prepare_exit = true := by
        by_contra hrunning
        rw [Bool.not_eq_true] at hrunning
        exact hpolls ⟨hrunning, hpoll, hsame, after, timeout, hread, htimeout, hnone⟩
      have hsame := sameStock_pollStatus (q := q) (w := (w.hold after).startPoll) (.inl hexit)
      exact ⟨hsame.statusHash_, hsame.repoRevisions_⟩
  | status | groups | profiles | routes | settings | exit => exact .refl _

/-- A poll is one of `pollStatus` with a request held, and nothing else of the step counts. -/
theorem polls_pollStatus {p : Event} (h : Polls w p) : ∃ w' : World, step q w p = w'.pollStatus q ∧
    w'.repos = w.repos ∧ w'.repos.prepare_exit = false ∧ w'.Held ∧ Advance w.router w'.router ∧
    SameStock w.router w'.router ∧ w'.router.groupsHash_ = w.router.groupsHash_ ∧ w'.router.settingsHash_ = w.router.settingsHash_ := by
  cases p with
  | statusTick =>
    obtain ⟨hexit, hpoll, hheld⟩ := h
    refine ⟨w, ?_, rfl, hexit, hheld, .of_eq rfl rfl, .refl _, rfl, rfl⟩
    rw [step, if_pos hpoll]
  | getEvents request =>
    obtain ⟨hexit, hpoll, hsame, after, timeout, hread, htimeout, hnone⟩ := h
    refine ⟨(w.hold after).startPoll, ?_, rfl, hexit, held_start w after, .of_eq rfl rfl, ⟨rfl, rfl⟩, rfl, rfl⟩
    rw [step, World.getEvents, hread]
    simp only [hsame, htimeout, hnone, hpoll, Bool.not_true, Bool.false_eq_true, if_false, or_self]
  | changed | status | groups | profiles | routes | settings | exit | settle | deadline =>
    exact absurd h id

/-- The repositories after a step. -/
theorem repos_step (q : QtHash) (w : World) (e : Event) : (step q w e).repos = w.repos.write e := by
  cases e with
  | settle =>
    rw [step]
    split
    · rw [World.settleEvents]
      split <;> rfl
    · rfl
  | statusTick =>
    rw [step]
    split
    · exact pollStatus_repos q w
    · rfl
  | deadline id =>
    rw [step, World.deadline]
    split <;> rfl
  | getEvents request =>
    rw [step]
    rcases getEvents_cases q w request with ⟨after, response, hget, -⟩ | ⟨after, -, -, hget⟩ |
      ⟨after, timeout, -, -, -, -, -, hget⟩
    · rw [hget]
      rfl
    · rw [hget]
      rfl
    · rw [hget, pollStatus_repos]
      rfl
  | changed | status | groups | profiles | routes | settings | exit => rfl

theorem revisions_step (h : Ok w) (q : QtHash) (e : Event) : ∀ before ∈ (step q w e).router.repoRevisions_, ∀ source,
    before.at source ≤ (step q w e).repos.revisions.at source := by
  intro before hbefore source
  by_cases hpolls : Polls w e
  · obtain ⟨w', hstep, hrepos, hexit, hheld, -⟩ := polls_pollStatus (q := q) hpolls
    rw [hstep, stock_pollStatus hexit hheld] at hbefore
    rw [hstep, pollStatus_repos, ← Option.some.inj hbefore]
  · rw [(sameStock_step hpolls).repoRevisions_] at hbefore
    rw [repos_step]
    exact (h.revisions before hbefore source).trans (write_revisions _ e source)

/-- Every step keeps the invariant. -/
theorem ok_step (h : Ok w) (q : QtHash) (e : Event) : Ok (step q w e) where
  seqs := seqs_advance h.seqs (advance_step q w e)
  settle := settleOk_step h.settle q e
  cursors answer hmem cursor changes hresponse := by
    obtain ⟨later, hlater, hfaithful⟩ := answers_step q w e
    rw [hlater, mem_append] at hmem
    rcases hmem with hmem | hmem
    · exact (h.cursors answer hmem cursor changes hresponse).trans (advance_step q w e).seq
    · rw [(hfaithful answer hmem cursor changes hresponse).1]
      exact (advance_step q w e).seq
  places := places_step h q e
  revisions := revisions_step h q e

theorem ok_run (h : Ok w) (q : QtHash) (es : List Event) : Ok (run (step q) w es) := by
  have hstep : ∀ w e, Ok w → Ok (step q w e) := fun _ e h => ok_step h q e
  exact inv_run_all hstep es w h

end Invariant

/-! ## No change is lost -/

variable {c : Nat}

section Told

variable {q : QtHash} {w : World}

theorem Tells.refl (w : World) (c : Nat) (T : ChangeTopic) : Tells w w c T := ⟨[], (append_nil _).symm, nofun⟩

variable {T : ChangeTopic}

theorem Tells.trans {w' w'' : World} (h : Tells w w' c T) (h' : Tells w' w'' c T) : Tells w w'' c T := by
  obtain ⟨later, hlater, htells⟩ := h
  obtain ⟨later', hlater', htells'⟩ := h'
  refine ⟨later ++ later', ?_, ?_⟩
  · rw [hlater', hlater, append_assoc]
  · intro answer hmem
    rcases mem_append.1 hmem with hmem | hmem
    · exact htells answer hmem
    · exact htells' answer hmem

/-- A number above a cursor stays above it. -/
theorem topic_step (h : Ok w) (hc : c < w.router.topicSeqs_ T) (e : Event) : c < (step q w e).router.topicSeqs_ T := by
  rcases (advance_step q w e).topics T with hsame | ⟨hnew, -⟩
  · rw [hsame]
    exact hc
  · exact (hc.trans_le (h.seqs T)).trans hnew

/-- Once the topic has a number above the cursor, every answer to it has the topic. -/
theorem tells_run (h : Ok w) (hc : c < w.router.topicSeqs_ T) (es : List Event) : Tells w (run (step q) w es) c T := by
  induction es generalizing w with
  | nil => exact .refl w c T
  | cons e es ih =>
    have hfirst : Tells w (step q w e) c T := by
      obtain ⟨later, hlater, hfaithful⟩ := answers_step q w e
      refine ⟨later, hlater, ?_⟩
      intro answer hmem hafter cursor changes hresponse
      obtain ⟨-, after, hsome, hall⟩ := hfaithful answer hmem cursor changes hresponse
      rw [hafter] at hsome
      exact hall T (Option.some.inj hsome ▸ hc)
    exact hfirst.trans (ih (ok_step h q e) (topic_step h hc e))

/-- The last poll is from before the last write of the source. -/
def Behind (w : World) (source : Source) : Prop :=
  ∃ before ∈ w.router.repoRevisions_, source = .status ∨ before.at source < w.repos.revisions.at source

theorem behind_write (h : Ok w) (hstocked : Stocked w) (hsource : e.source = some source) : Behind (step q w e) source := by
  have hpolls : ¬Polls w e := by
    intro hpolls
    cases e with
    | statusTick | getEvents => cases hsource
    | changed | status | groups | profiles | routes | settings | exit | settle | deadline =>
      exact hpolls
  obtain ⟨before, hbefore⟩ := Option.isSome_iff_exists.1 hstocked.2
  refine ⟨before, (sameStock_step hpolls).repoRevisions_.trans hbefore, ?_⟩
  rw [repos_step]
  rcases write_source w.repos hsource with hstatus | hlt
  · exact .inl hstatus
  · exact .inr (lt_of_le_of_lt (h.revisions before hbefore source) hlt)

theorem behind_run (h : Behind w source) {es : List Event} (hbetween : Along (step q) (fun w e => ¬Polls w e) w es) :
    Behind (run (step q) w es) source := by
  induction es generalizing w with
  | nil => exact h
  | cons e es ih =>
    obtain ⟨hfirst, hrest⟩ := hbetween
    refine ih ?_ hrest
    obtain ⟨before, hbefore, hlt⟩ := h
    refine ⟨before, (sameStock_step hfirst).repoRevisions_.trans hbefore, ?_⟩
    rw [repos_step]
    rcases hlt with hstatus | hlt
    · exact .inl hstatus
    · exact .inr (lt_of_lt_of_le hlt (write_revisions _ e source))

/-- What a poll finds behind a topic. -/
theorem found (hbehind : Behind w source) (hdiffers : Differs q w source)
    (htopic : T ∈ source.topics) : statusMoved q w.repos w.router = true ∧ T = .Status ∨
    ∃ before ∈ w.router.repoRevisions_, T ∈ repoTopics q w.repos w.router before := by
  obtain ⟨before, hbefore, hlt⟩ := hbehind
  cases source with
  | status => exact .inl ⟨hdiffers, mem_singleton.1 htopic⟩
  | groups =>
    have hne : w.repos.revisions.groups ≠ before.groups := (hlt.resolve_left nofun).ne'
    refine .inr ⟨before, hbefore, ?_⟩
    rw [repoTopics, if_pos ⟨hne, hdiffers⟩, append_assoc, append_assoc]
    exact mem_append_left _ htopic
  | profiles =>
    have hne : w.repos.revisions.profiles ≠ before.profiles := (hlt.resolve_left nofun).ne'
    refine .inr ⟨before, hbefore, ?_⟩
    rw [repoTopics, if_pos hne]
    exact mem_append_left _ (mem_append_left _ (mem_append_right _ htopic))
  | routes =>
    have hne : w.repos.revisions.routes ≠ before.routes := (hlt.resolve_left nofun).ne'
    refine .inr ⟨before, hbefore, ?_⟩
    rw [repoTopics, if_pos hne]
    exact mem_append_left _ (mem_append_right _ htopic)
  | settings =>
    have hne : w.repos.revisions.settings ≠ before.settings := (hlt.resolve_left nofun).ne'
    refine .inr ⟨before, hbefore, ?_⟩
    rw [repoTopics, if_pos (c := _ ∧ settingsHashNow q w.repos ≠ _) ⟨hne, hdiffers⟩]
    exact mem_append_right _ htopic

/-- What a poll finds gets a number above those given out. -/
theorem polls_topic {p : Event} (hpolls : Polls w p) (h : statusMoved q w.repos w.router = true ∧ T = .Status ∨
    ∃ before ∈ w.router.repoRevisions_, T ∈ repoTopics q w.repos w.router before) :
    w.router.changeSeq_ < (step q w p).router.topicSeqs_ T := by
  obtain ⟨w', hstep, hrepos, hexit, hheld, hadvance, hstock, hgroups, hsettings⟩ :=
    polls_pollStatus (q := q) hpolls
  rw [hstep]
  refine lt_of_le_of_lt hadvance.seq (pollStatus_topic hexit hheld ?_)
  rw [hrepos, hstock.repoRevisions_]
  rcases h with ⟨hmoved, hT⟩ | ⟨before, hbefore, hmem⟩
  · left
    rw [statusMoved, hstock.statusHash_]
    exact ⟨hmoved, hT⟩
  · right
    refine ⟨before, hbefore, ?_⟩
    rw [repoTopics, hgroups, hsettings]
    exact hmem

/-- A change that is noticed raises its topic above every cursor given out before. -/
theorem noticed_topic (h : Ok w) {es : List Event} (hnoticed : Noticed q w T es) : w.router.changeSeq_ < (run (step q) w es).router.topicSeqs_ T := by
  cases hnoticed with
  | signal topics hmem => exact noteChanged_topic hmem
  | poll e source es p hsource htopic hstocked hbetween hpolls hdiffers =>
    have hbehind := behind_run (behind_write (q := q) h hstocked hsource) hbetween
    have hnew := polls_topic hpolls (found hbehind hdiffers htopic)
    rw [run_append]
    refine lt_of_le_of_lt ?_ hnew
    have hadvance : ∀ (es : List Event) (w : World), w.router.changeSeq_ ≤ (run (step q) w es).router.changeSeq_ := by
      intro es
      induction es with
      | nil => exact fun w => Nat.le_refl _
      | cons e es ih => exact fun w => (advance_step q w e).seq.trans (ih _)
    exact hadvance (e :: es) w

end Told

/-! ## What is held is answered -/

section Answered

variable {q : QtHash} {w : World}

/-- The request was answered. -/
def World.Answered (w : World) (id : Nat) : Prop := ∃ answer ∈ w.answered, answer.id = id

theorem answered_step {id : Nat} (h : w.Answered id) (e : Event) : (step q w e).Answered id := by
  obtain ⟨answer, hmem, hid⟩ := h
  obtain ⟨later, hlater, -⟩ := answers_step q w e
  refine ⟨answer, ?_, hid⟩
  rw [hlater]
  exact mem_append_left _ hmem

variable {pending : FeedWaiter}

section

variable (h : pending ∈ w.held)

include h

theorem answered_releaseFeeds : ⟨pending.id, some pending.after, .exiting⟩ ∈ w.releaseFeeds.answered :=
  mem_append_right _ (mem_map.2 ⟨pending, h, rfl⟩)

theorem stays_pollStatus : pending ∈ (w.pollStatus q).held ∨ (w.pollStatus q).Answered pending.id := by
  cases hexit : w.repos.prepare_exit with
  | true =>
    rw [pollStatus_exit hexit]
    exact .inr ⟨_, answered_releaseFeeds h, rfl⟩
  | false =>
    rw [(pollStatus_keeps hexit).1]
    exact .inl h

/-- What settling answers. -/
theorem settle_answers (hnew : w.router.changedAfter pending.after = true) (hsettle : w.router.eventSettle_ = true) :
    ⟨pending.id, some pending.after, .exiting⟩ ∈ (step q w .settle).answered ∨
    ⟨pending.id, some pending.after, w.router.eventsResponse pending.after false⟩ ∈ (step q w .settle).answered := by
  rw [step, if_pos hsettle, World.settleEvents]
  split
  · exact .inl (answered_releaseFeeds (w := { w with router := { w.router with
      eventSettle_ := false } }) h)
  · right
    apply mem_append_right
    refine mem_map.2 ⟨pending, mem_filter.2 ⟨(mem_held.1 h).1, ?_⟩, rfl⟩
    rw [(mem_held.1 h).2, Bool.not_false, Bool.true_and]
    exact hnew

/-- A held request stays held until it is answered. -/
theorem stays_step (e : Event) : pending ∈ (step q w e).held ∨ (step q w e).Answered pending.id := by
  have hheld := mem_held.1 h
  cases e with
  | changed topics =>
    left
    rw [mem_held, step]
    simp only [noteChanged_waiters]
    exact hheld
  | settle =>
    cases hsettle : w.router.eventSettle_ with
    | false =>
      rw [step, hsettle]
      exact .inl h
    | true =>
      cases hnew : w.router.changedAfter pending.after with
      | true =>
        right
        rcases settle_answers (q := q) h hnew hsettle with hexit | hevents
        · exact ⟨_, hexit, rfl⟩
        · exact ⟨_, hevents, rfl⟩
      | false =>
        rw [step, if_pos hsettle, World.settleEvents]
        split
        · exact .inr ⟨_, answered_releaseFeeds (w := { w with router := { w.router with
            eventSettle_ := false } }) h, rfl⟩
        · left
          rw [mem_held, mem_filter]
          refine ⟨⟨hheld.1, ?_⟩, hheld.2⟩
          rw [hheld.2, Bool.not_false, Bool.true_and, Bool.not_eq_true']
          exact hnew
  | statusTick =>
    rw [step]
    split
    · exact stays_pollStatus h
    · exact .inl h
  | deadline id =>
    rw [step]
    rcases deadline_held (w := w) id with hsame | ⟨other, -, -, hlist, hanswered, -⟩
    · rw [hsame]
      exact .inl h
    · by_cases hid : pending.id = id
      · right
        refine ⟨⟨id, some other.after, w.router.eventsResponse other.after false⟩, ?_, hid.symm⟩
        rw [hanswered]
        exact mem_append_right _ mem_cons_self
      · left
        rw [hlist, mem_filter, bne_iff_ne]
        exact ⟨h, hid⟩
  | getEvents request =>
    rw [step]
    rcases getEvents_cases q w request with ⟨after, response, hget, -⟩ | ⟨after, -, -, hget⟩ |
      ⟨after, timeout, -, -, -, -, -, hget⟩
    · rw [hget]
      exact .inl h
    · rw [hget, held_hold]
      exact .inl (mem_append_left _ h)
    · rw [hget]
      apply stays_pollStatus
      have hstart : (w.hold after).startPoll.held = (w.hold after).held := rfl
      rw [hstart, held_hold]
      exact mem_append_left _ h
  | status | groups | profiles | routes | settings | exit => exact .inl h

theorem deadline_moves : w.deadline pending.id ≠ w := by
  intro hsame
  have hsome : (w.router.eventWaiters_.find? fun other => other.id == pending.id && !other.done).isSome =
      true := by
    rw [find?_isSome]
    refine ⟨pending, (mem_held.1 h).1, ?_⟩
    rw [beq_self_eq_true, (mem_held.1 h).2]
    rfl
  obtain ⟨found, hfound⟩ := Option.isSome_iff_exists.1 hsome
  have hlength := congrArg (fun w' => w'.answered.length) hsame
  rw [World.deadline, hfound] at hlength
  simp at hlength

end

/-- A held request whose topic was marked is answered when the settling timer fires, which it does. -/
theorem settles_run (h : Ok w) (hheld : pending ∈ w.held)
    (hnew : pending.after < w.router.topicSeqs_ T) (es : List Event) : (run (step q) w es).Answered pending.id ∨
    (run (step q) w es).router.eventSettle_ = true ∧
    ∃ answer ∈ (step q (run (step q) w es) .settle).answered, answer.id = pending.id ∧ (answer.response = .exiting ∨
    ∃ cursor changes, answer.response = .events cursor changes ∧ T ∈ changes) := by
  induction es generalizing w with
  | nil =>
    right
    have hchanged : w.router.changedAfter pending.after = true := by
      rw [Router.changedAfter, any_eq_true]
      exact ⟨T, mem_kTopics T, decide_eq_true hnew⟩
    have hsettle := h.settle pending (mem_held.1 hheld).1 (mem_held.1 hheld).2 hchanged
    refine ⟨hsettle, ?_⟩
    rcases settle_answers (q := q) hheld hchanged hsettle with hexit | hevents
    · exact ⟨_, hexit, rfl, .inl rfl⟩
    · refine ⟨_, hevents, rfl, .inr ⟨_, _, rfl, ?_⟩⟩
      rw [mem_filter, decide_eq_true hnew]
      exact ⟨mem_kTopics T, rfl⟩
  | cons e es ih =>
    rcases stays_step (q := q) hheld e with hstays | hanswered
    · exact ih (ok_step h q e) hstays (topic_step h hnew e)
    · left
      have hkept : ∀ w e, w.Answered pending.id → (step q w e).Answered pending.id :=
        fun w e hanswered => answered_step hanswered e
      exact inv_run_all hkept es _ hanswered

end Answered

/-! ## Every run -/

/-- An event gives a topic a new number. -/
def Marks (q : QtHash) (w : World) (e : Event) (T : ChangeTopic) : Prop := w.router.changeSeq_ < (step q w e).router.topicSeqs_ T

/-- The feed loses no change that is noticed, answers what is held at the next settling, and answers every
request once. -/
theorem feed_kept (q : QtHash) (repos : Repos) : (∀ es₁ es₂ es₃ c T, Received (run (step q) (World.init repos) es₁) c →
    Noticed q (run (step q) (World.init repos) es₁) T es₂ → Tells (run (step q) (World.init repos) (es₁ ++ es₂))
    (run (step q) (World.init repos) (es₁ ++ es₂ ++ es₃)) c T) ∧ (∀ es₁ e es₂ T, Marks q (run (step q) (World.init repos) es₁) e T →
    ∀ pending ∈ (run (step q) (World.init repos) es₁).held, pending.after ≤ (run (step q) (World.init repos) es₁).router.changeSeq_ →
    (run (step q) (World.init repos) (es₁ ++ e :: es₂)).Answered pending.id ∨
    (run (step q) (World.init repos) (es₁ ++ e :: es₂)).router.eventSettle_ = true ∧
    ∃ answer ∈ (step q (run (step q) (World.init repos) (es₁ ++ e :: es₂)) .settle).answered,
    answer.id = pending.id ∧ (answer.response = .exiting ∨ ∃ cursor changes, answer.response = .events cursor changes ∧ T ∈ changes)) ∧
    ∀ es, (run (step q) (World.init repos) es).places.Perm (List.range (run (step q) (World.init repos) es).asked) ∧
    ∀ pending ∈ (run (step q) (World.init repos) es).held,
    (step q (run (step q) (World.init repos) es) (.deadline pending.id)).Answered pending.id := by
  refine ⟨?_, ?_, ?_⟩
  · intro es₁ es₂ es₃ c T hreceived hnoticed
    have hok := ok_run (ok_init repos) q es₁
    obtain ⟨answer, hmem, changes, hresponse⟩ := hreceived
    have hc := lt_of_le_of_lt (hok.cursors answer hmem c changes hresponse) (noticed_topic hok hnoticed)
    rw [run_append _ _ (es₁ ++ es₂) es₃, run_append]
    exact tells_run (ok_run hok q es₂) hc es₃
  · intro es₁ e es₂ T hmarks pending hheld hafter
    have hok := ok_run (ok_init repos) q es₁
    rw [run_append, run_cons]
    rcases stays_step (q := q) hheld e with hstays | hanswered
    · exact settles_run (ok_step hok q e) hstays (lt_of_le_of_lt hafter hmarks) es₂
    · left
      have hkept : ∀ w e, w.Answered pending.id → (step q w e).Answered pending.id :=
        fun w e hanswered => answered_step hanswered e
      exact inv_run_all hkept es₂ _ hanswered
  · intro es
    have hok := ok_run (ok_init repos) q es
    refine ⟨hok.places, ?_⟩
    intro pending hheld
    rcases stays_step (q := q) hheld (.deadline pending.id) with hstays | hanswered
    · -- Its own deadline leaves no request held.
      rw [step] at hstays
      rcases deadline_held (w := run (step q) (World.init repos) es) pending.id with
        hsame | ⟨-, -, -, hlist, -⟩
      · exact absurd hsame (deadline_moves hheld)
      · rw [hlist, mem_filter, bne_self_eq_false] at hstays
        exact nomatch hstays.2
    · exact hanswered

/-! ## Changes that are not noticed -/

section Unnoticed

/-- Hashes that tell lengths apart. -/
def sampleHash : QtHash :=
  ⟨List.length, fun ids seed => ids.length + seed, fun seed group => seed + group.profiles.length⟩

def sampleRepos : Repos := ⟨[], ⟨[], []⟩, [], ⟨0, 0, 0, 0⟩, false⟩

def atOnce : Request := ⟨true, .value 0, .value 0⟩

def waiting : Request := ⟨true, .value 0, .value 60⟩

def outcome (es : List Event) : List Response := (run (step sampleHash) (World.init sampleRepos) es).answered.map Answer.response

/-- A change of the groups, the status and back, that polls see nothing of: before the first held request,
between two polls, and after the last held request. And a cursor ahead of the feed waits on. -/
theorem changes_unnoticed : outcome [.getEvents atOnce, .groups ⟨[1], []⟩, .getEvents waiting, .statusTick, .deadline 1] =
    [.events 0 [], .events 0 []] ∧ outcome [.getEvents waiting, .getEvents atOnce, .status [([], .null)], .status [], .statusTick,
    .deadline 0] = [.events 0 [], .events 0 []] ∧
    outcome [.getEvents waiting, .deadline 0, .groups ⟨[1], []⟩, .statusTick, .getEvents atOnce] = [.events 0 [], .events 0 []] ∧
    outcome [.getEvents ⟨true, .value 5, .value 60⟩, .changed [.Groups], .settle] = [] := by
  decide

/-- A change of the groups between two polls of a held request. -/
theorem feed_kept_sample : Tells (run (step sampleHash) (World.init sampleRepos)
    ([.getEvents atOnce, .getEvents waiting] ++ [.groups ⟨[1], []⟩, .statusTick])) (run (step sampleHash) (World.init sampleRepos)
    ([.getEvents atOnce, .getEvents waiting] ++ [.groups ⟨[1], []⟩, .statusTick] ++ [.settle])) 0 .Groups := by
  refine (feed_kept sampleHash sampleRepos).1 _ _ _ _ _ ⟨⟨0, some 0, .events 0 []⟩, ?_, [], rfl⟩ ?_
  · decide
  · exact .poll (.groups ⟨[1], []⟩) .groups [] .statusTick rfl (by decide) ⟨rfl, rfl⟩ trivial
      ⟨rfl, rfl, ⟨1, 0, false⟩, mem_cons_self, rfl⟩ (fun hsame : (1 : Nat) = 0 => nomatch hsame)

end Unnoticed

end Throne.Api.Remote.Feeds
