import Throne.Core.SysRelay.PrivateRelay

/-!
# The switch can be put back

A change that is not undone yet has its interface and its old value in the marker, in every run in which
`Disable` meets no such change, a write that reports an error has changed nothing and `Restore` finds the
current set the change was made in (`relay_kept`). A second `Disable` over an unfinished `Restore` shows
that this is needed (`secondDisable_loses`).
-/

namespace Throne.Core.SysRelay

open Lib.Runs Lib.Texts

section Relay

variable (userPrefs : Text → Text)

/-- What a step must find. The marker is written when no change is left to be undone; a write of `Disable`
that reports an error, or cannot be read back, has changed nothing; `Restore` goes to the set the marker
was written for. Names and values are single words. -/
def Meets (w : World) : Event → Prop
  | .next ok committed =>
    match w.pc with
    | .disableTruncate _ interfaceName previous =>
      ok = true → (∀ path, w.prefs path = userPrefs path) ∧ IsWord isBlank interfaceName ∧ IsWord isBlank previous
    | .disableCommit _ => ok = false → committed = false
    | .disableVerify path => ok = false → w.prefs path ≠ relayOff
    | .restoreSet interfaceName _ =>
      ok = true → w.marked = some (interfacePath w.currentSet interfaceName)
    | _ => True
  | _ => True

/-- The marker of a change at a path. -/
def Marks (w : World) (path : Text) : Prop :=
  w.marked = some path ∧ ∃ set interfaceName text, path = interfacePath set interfaceName ∧
    w.marker = some text ∧ words isBlank text = [interfaceName, userPrefs path]

/-- Nothing is left to be undone. -/
def Undone (w : World) : Prop := ∀ path, w.prefs path = userPrefs path

/-- What the core knows at each command. -/
def PcOk (w : World) : Prop :=
  match w.pc with
  | .disableRead path interfaceName => ∃ set, path = interfacePath set interfaceName
  | .disableTruncate path interfaceName previous =>
    (∃ set, path = interfacePath set interfaceName) ∧ previous = w.prefs path
  | .disableMark path interfaceName previous =>
    (∃ set, path = interfacePath set interfaceName) ∧ previous = userPrefs path ∧
      Undone userPrefs w ∧ IsWord isBlank interfaceName ∧ IsWord isBlank previous
  | .disableCommit path => Marks userPrefs w path ∧ Undone userPrefs w
  | .disableVerify path =>
    (∀ other, other ≠ path → w.prefs other = userPrefs other) ∧ (w.prefs path = relayOff ∨ w.prefs path = userPrefs path)
  | .disableRemove => Undone userPrefs w
  | .restoreMalformed => Undone userPrefs w
  | .restoreSet interfaceName previous => ∃ text, w.marker = some text ∧
      words isBlank text = [interfaceName, previous]
  | .restoreCommit path previous => Marks userPrefs w path ∧ previous = userPrefs path
  | .restoreVerify path previous => Marks userPrefs w path ∧ previous = userPrefs path
  | .restoreRemove => Undone userPrefs w
  | _ => True

/-- The invariant: a change has its marker, and the marker names the path it was written for. -/
structure Ok (w : World) : Prop where
  marks : ∀ path, w.prefs path ≠ userPrefs path → Marks userPrefs w path
  marker : ∀ text interfaceName previous, w.marker = some text → words isBlank text = [interfaceName, previous] →
      ∃ set, w.marked = some (interfacePath set interfaceName) ∧ previous = userPrefs (interfacePath set interfaceName)
  pc : PcOk userPrefs w

variable {userPrefs}

/-! ## Small steps -/

theorem isBlank_space : isBlank ' ' = true := by decide

theorem isBlank_newline : isBlank '\n' = true := by decide

variable {interfaceName previous path : Text}

/-- `Restore` reads what `Disable` wrote. -/
theorem words_markerText (hname : IsWord isBlank interfaceName) (hprevious : IsWord isBlank previous) :
    words isBlank (markerText interfaceName previous) = [interfaceName, previous] := by
  rw [markerText, words_cons hname isBlank_space, words_cons hprevious isBlank_newline, words_nil]

variable {w : World}

/-- The core moves on, and nothing else changes. -/
theorem ok_goto (h : Ok userPrefs w) {pc : Pc} (hpc : PcOk userPrefs (w.goto pc)) : Ok userPrefs (w.goto pc) := ⟨h.marks, h.marker, hpc⟩

/-- The marker goes when nothing is left to be undone. -/
theorem ok_removed (h : Ok userPrefs w) (hundone : Undone userPrefs w) (ok : Bool) :
    Ok userPrefs { w with marker := if ok then none else w.marker, pc := .idle } where
  marks path hpath := absurd (hundone path) hpath
  marker text interfaceName previous htext hwords := by
    cases ok with
    | true => cases htext
    | false => exact h.marker text interfaceName previous htext hwords
  pc := trivial

theorem undone_update {value : Text} (h : ∀ other, other ≠ path → w.prefs other = userPrefs other)
    (hvalue : value = userPrefs path) : ∀ other, Function.update w.prefs path value other = userPrefs other := by
  intro other
  by_cases hsame : other = path
  · subst hsame
    rw [Function.update_self, hvalue]
  · rw [Function.update_of_ne hsame]
    exact h other hsame

/-- Only the path of the marker is changed. -/
theorem undone_other (h : Ok userPrefs w) (hmarks : Marks userPrefs w path) {other : Text}
    (hne : other ≠ path) : w.prefs other = userPrefs other := by
  by_contra hchanged
  have hmarked := (h.marks other hchanged).1
  exact hne (Option.some.inj (hmarked.symm.trans hmarks.1))

/-! ## `Disable` -/

variable {ok committed : Bool}

theorem ok_disableTruncate (h : Ok userPrefs w) (hat : w.pc = .disableTruncate path interfaceName previous)
    (hmeets : Meets userPrefs w (.next ok committed)) : Ok userPrefs (command w ok committed) := by
  have hpc := h.pc
  rw [PcOk, hat] at hpc
  obtain ⟨hset, rfl⟩ := hpc
  rw [Meets, hat] at hmeets
  rw [command, hat]
  cases ok with
  | false => exact ok_goto h trivial
  | true =>
    obtain ⟨hundone, hname, hprevious⟩ := hmeets rfl
    refine ⟨fun path' hpath => absurd (hundone path') hpath, ?_, hset, hundone path, hundone, hname, hprevious⟩
    -- An empty marker has no words.
    rintro text name value ⟨⟩ hwords
    rw [words_nil] at hwords
    cases hwords

theorem ok_disableMark (h : Ok userPrefs w) (hat : w.pc = .disableMark path interfaceName previous)
    (ok committed : Bool) : Ok userPrefs (command w ok committed) := by
  have hpc := h.pc
  rw [PcOk, hat] at hpc
  obtain ⟨⟨set, rfl⟩, rfl, hundone, hname, hprevious⟩ := hpc
  rw [command, hat]
  cases ok with
  | false => exact ok_goto h trivial
  | true =>
    have hwords := words_markerText hname hprevious
    refine ⟨fun path hpath => absurd (hundone path) hpath, ?_, ⟨rfl, set, interfaceName, _, rfl, rfl, hwords⟩, hundone⟩
    rintro text name value ⟨⟩ hread
    rw [hwords] at hread
    obtain ⟨rfl, htail⟩ := List.cons.inj hread
    exact ⟨set, rfl, (List.cons.inj htail).1.symm⟩

theorem ok_disableCommit (h : Ok userPrefs w) (hat : w.pc = .disableCommit path)
    (hmeets : Meets userPrefs w (.next ok committed)) : Ok userPrefs (command w ok committed) := by
  have hpc := h.pc
  rw [PcOk, hat] at hpc
  obtain ⟨⟨hmarked, hmarker⟩, hundone⟩ := hpc
  rw [Meets, hat] at hmeets
  rw [command, hat]
  cases committed with
  | false =>
    -- Nothing was changed.
    cases ok with
    | false => exact ok_goto h hundone
    | true => exact ok_goto h ⟨fun other _ => hundone other, .inr (hundone path)⟩
  | true =>
    cases ok with
    | false => exact absurd (hmeets rfl) (by decide)
    | true =>
      refine ⟨?_, h.marker, ?_, .inl (Function.update_self _ _ _)⟩
      · intro other hother
        by_cases hsame : other = path
        · subst hsame
          exact ⟨hmarked, hmarker⟩
        · exact absurd ((Function.update_of_ne hsame _ _).trans (hundone other)) hother
      · exact fun other hne => (Function.update_of_ne hne _ _).trans (hundone other)

theorem ok_disableVerify (h : Ok userPrefs w) (hat : w.pc = .disableVerify path)
    (hmeets : Meets userPrefs w (.next ok committed)) : Ok userPrefs (command w ok committed) := by
  have hpc := h.pc
  rw [PcOk, hat] at hpc
  obtain ⟨hothers, hvalue⟩ := hpc
  rw [Meets, hat] at hmeets
  rw [command, hat]
  simp only
  split
  · exact ok_goto h trivial
  · next hfailed =>
    have hnot : w.prefs path ≠ relayOff := by
      intro hoff
      cases ok with
      | false => exact hmeets rfl hoff
      | true => exact hfailed ⟨rfl, hoff⟩
    apply ok_goto h
    intro other
    by_cases hsame : other = path
    · subst hsame
      exact hvalue.resolve_left hnot
    · exact hothers other hsame

/-! ## `Restore` -/

theorem ok_restoreRead (h : Ok userPrefs w) (hat : w.pc = .restoreRead) (ok committed : Bool) : Ok userPrefs (command w ok committed) := by
  rw [command, hat]
  cases ok with
  | false => exact ok_goto h trivial
  | true =>
    simp only [if_true]
    cases hmarker : w.marker with
    | none => exact ok_goto h trivial
    | some text =>
      simp only
      split
      · next interfaceName previous hwords => exact ok_goto h ⟨text, hmarker, hwords⟩
      · next hwords =>
        apply ok_goto h
        intro path
        by_contra hchanged
        obtain ⟨-, set, interfaceName, text', -, htext', hwords'⟩ := h.marks path hchanged
        obtain rfl := Option.some.inj (hmarker.symm.trans htext')
        exact hwords _ _ hwords'

theorem ok_restoreSet (h : Ok userPrefs w) (hat : w.pc = .restoreSet interfaceName previous)
    (hmeets : Meets userPrefs w (.next ok committed)) : Ok userPrefs (command w ok committed) := by
  have hpc := h.pc
  rw [PcOk, hat] at hpc
  obtain ⟨text, htext, hwords⟩ := hpc
  rw [Meets, hat] at hmeets
  rw [command, hat]
  cases ok with
  | false => exact ok_goto h trivial
  | true =>
    have hmarked := hmeets rfl
    obtain ⟨set, hmarked', hprevious⟩ := h.marker text interfaceName previous htext hwords
    rw [Option.some.inj (hmarked'.symm.trans hmarked)] at hprevious
    subst hprevious
    exact ok_goto h ⟨⟨hmarked, _, interfaceName, text, rfl, htext, hwords⟩, rfl⟩

theorem ok_restoreCommit (h : Ok userPrefs w) (hat : w.pc = .restoreCommit path previous)
    (ok committed : Bool) : Ok userPrefs (command w ok committed) := by
  have hpc := h.pc
  rw [PcOk, hat] at hpc
  obtain ⟨hmarks, rfl⟩ := hpc
  rw [command, hat]
  have hafter : Ok userPrefs ((w.commit path (userPrefs path) committed).goto .idle) ∧
      Marks userPrefs (w.commit path (userPrefs path) committed) path := by
    cases committed with
    | false => exact ⟨ok_goto h trivial, hmarks⟩
    | true =>
      have hundone := undone_update (fun other => undone_other h hmarks) (rfl (a := userPrefs path))
      exact ⟨⟨fun other hother => absurd (hundone other) hother, h.marker, trivial⟩, hmarks⟩
  obtain ⟨hok, hmarks'⟩ := hafter
  cases ok with
  | false => exact hok
  | true => exact ⟨hok.marks, hok.marker, hmarks', rfl⟩

theorem ok_restoreVerify (h : Ok userPrefs w) (hat : w.pc = .restoreVerify path previous)
    (ok committed : Bool) : Ok userPrefs (command w ok committed) := by
  have hpc := h.pc
  rw [PcOk, hat] at hpc
  obtain ⟨hmarks, rfl⟩ := hpc
  rw [command, hat]
  simp only
  split
  · next hread =>
    apply ok_goto h
    intro other
    by_cases hsame : other = path
    · subst hsame
      exact hread.2
    · exact undone_other h hmarks hsame
  · exact ok_goto h trivial

/-! ## Runs -/

/-- Every command keeps the invariant. -/
theorem ok_command (h : Ok userPrefs w) (hmeets : Meets userPrefs w (.next ok committed)) : Ok userPrefs (command w ok committed) := by
  have hpc := h.pc
  rw [PcOk] at hpc
  cases hat : w.pc with
  | idle =>
    rw [command, hat]
    exact h
  | disableSet interfaceName =>
    rw [command, hat]
    cases ok with
    | true => exact ok_goto h ⟨_, rfl⟩
    | false => exact ok_goto h trivial
  | disableRead path interfaceName =>
    rw [hat] at hpc
    rw [command, hat]
    simp only
    split
    · exact ok_goto h trivial
    · exact ok_goto h ⟨hpc, rfl⟩
  | disableTruncate path interfaceName previous => exact ok_disableTruncate h hat hmeets
  | disableMark path interfaceName previous => exact ok_disableMark h hat ok committed
  | disableCommit path => exact ok_disableCommit h hat hmeets
  | disableVerify path => exact ok_disableVerify h hat hmeets
  | disableRemove | restoreMalformed | restoreRemove =>
    rw [hat] at hpc
    rw [command, hat]
    exact ok_removed h hpc ok
  | repairStat =>
    rw [command, hat]
    simp only
    split <;> exact ok_goto h trivial
  | restoreRead => exact ok_restoreRead h hat ok committed
  | restoreSet interfaceName previous => exact ok_restoreSet h hat hmeets
  | restoreCommit path previous => exact ok_restoreCommit h hat ok committed
  | restoreVerify path previous => exact ok_restoreVerify h hat ok committed

theorem ok_step (w : World) (e : Event) (h : Ok userPrefs w) (hmeets : Meets userPrefs w e) : Ok userPrefs (step w e) := by
  cases e with
  | Disable interfaceName =>
    rw [step]
    split
    · split
      · exact h
      · exact ok_goto h trivial
    · exact h
  | Restore | RepairLeftover =>
    rw [step]
    split
    · exact ok_goto h trivial
    · exact h
  | next ok committed => exact ok_command h hmeets
  | kill => exact ok_goto h trivial
  | setCurrent set => exact ⟨h.marks, h.marker, h.pc⟩

variable (userPrefs) in
theorem ok_init (set : Text) : Ok userPrefs (World.init userPrefs set) where
  marks _ h := absurd rfl h
  marker _ _ _ h := nomatch h
  pc := trivial

/-- The step with which `Restore` reports success: there is no marker, or it has been removed. -/
def Restored (w : World) : Event → Prop
  | .next ok _ => ok = true ∧ (w.pc = .restoreRead ∧ w.marker = none ∨ w.pc = .restoreRemove)
  | _ => False

variable (userPrefs) in
/-- What is claimed of a step. -/
structure Kept (w : World) (e : Event) : Prop where
  /-- A change that is not undone has its interface and its old value in the marker. -/
  named : ∀ path, (step w e).prefs path ≠ userPrefs path → ∃ set interfaceName text, path = interfacePath set interfaceName ∧
      (step w e).marker = some text ∧ words isBlank text = [interfaceName, userPrefs path]
  /-- `Restore` writes the old value, to the path the marker was written for. -/
  written : ∀ path value ok committed, e = .next ok committed → w.pc = .restoreCommit path value → value = userPrefs path ∧ w.marked = some path
  /-- After a `Restore` that reports success nothing is left to be undone. -/
  restored : Restored w e → ∀ path, (step w e).prefs path = userPrefs path

theorem restored_of_ok {e : Event} (h : Ok userPrefs w) (hrestored : Restored w e) : ∀ path, (step w e).prefs path = userPrefs path := by
  cases e with
  | next ok committed =>
    obtain ⟨rfl, hat⟩ := hrestored
    rcases hat with ⟨hat, hmarker⟩ | hat
    · have hsame : (step w (.next true committed)).prefs = w.prefs := by
        rw [step, command, hat]
        simp only [if_true, hmarker]
        rfl
      intro path
      rw [hsame]
      by_contra hchanged
      obtain ⟨-, -, -, text, -, htext, -⟩ := h.marks path hchanged
      exact nomatch hmarker.symm.trans htext
    · have hsame : (step w (.next true committed)).prefs = w.prefs := by
        rw [step, command, hat]
      have hundone := h.pc
      rw [PcOk, hat] at hundone
      rw [hsame]
      exact hundone
  | _ => exact absurd hrestored id

theorem kept_of_ok {e : Event} (h : Ok userPrefs w) (hafter : Ok userPrefs (step w e)) : Kept userPrefs w e where
  named path hpath := by
    obtain ⟨-, set, interfaceName, text, hset, htext, hwords⟩ := hafter.marks path hpath
    exact ⟨set, interfaceName, text, hset, htext, hwords⟩
  written path value ok committed _ hat := by
    have hpc := h.pc
    rw [PcOk, hat] at hpc
    exact ⟨hpc.2, hpc.1.1⟩
  restored := restored_of_ok h

end Relay

/-- The switch can be put back in every run whose steps meet the condition. -/
theorem relay_kept (userPrefs : Text → Text) (set : Text) (es : List Event)
    (hmeets : Along step (Meets userPrefs) (World.init userPrefs set) es) : Along step (Kept userPrefs) (World.init userPrefs set) es :=
  along_mono ok_step (fun w e h hmeet => kept_of_ok h (ok_step w e h hmeet)) es _ (ok_init userPrefs set) hmeets

/-- One session: off at `Disable`, back at `Restore`. -/
theorem relay_kept_session : Along step (Kept fun _ => valueAbsent) (World.init (fun _ => valueAbsent) "/Sets/A".toList)
    [.Disable "en0".toList, .next true false, .next true false, .next true false,
    .next true false, .next true true, .next true false, .Restore, .next true false,
    .next true false, .next true true, .next true false, .next true false] := by
  have hword : IsWord isBlank "en0".toList ∧ IsWord isBlank valueAbsent :=
    ⟨⟨by decide, forall_of_all (by decide)⟩, by decide, forall_of_all (by decide)⟩
  exact relay_kept _ _ _ ⟨trivial, trivial, trivial, fun _ => ⟨fun _ => rfl, hword⟩, trivial,
    nofun, nofun, trivial, trivial, fun _ => rfl, trivial, trivial,
    trivial, trivial⟩

/-- A second `Disable`, on another interface, after a `Restore` that found no current set: it writes its
marker over that of the first one. -/
theorem secondDisable_loses : ¬Along step (Kept fun _ => valueAbsent) (World.init (fun _ => valueAbsent) "/Sets/A".toList)
    ([.Disable "en0".toList, .next true false, .next true false, .next true false,
    .next true false, .next true true, .next true false, .Restore, .next true false,
    .next false false, .Disable "en1".toList, .next true false, .next true false, .next true false] ++ [.next true false]) := by
  intro hkept
  obtain ⟨-, hlast, -⟩ := (along_append _ _ _).1 hkept
  obtain ⟨set, interfaceName, text, hpath, htext, hwords⟩ :=
    hlast.named (interfacePath "/Sets/A".toList "en0".toList) (by decide)
  have hmarker : some (markerText "en1".toList valueAbsent) = some text := htext
  cases hmarker
  have hread : words isBlank (markerText "en1".toList valueAbsent) = ["en1".toList, valueAbsent] := by
    decide
  rw [hread] at hwords
  cases hwords
  -- The two paths differ in their last character.
  have hends := congrArg List.reverse hpath
  simp only [interfacePath, List.reverse_append] at hends
  have hsign : '0' = '1' := (List.cons.inj (show '0' :: _ = '1' :: _ from hends)).1
  cases hsign

end Throne.Core.SysRelay
