import Throne.Core.Xray.Gate
import Mathlib.Data.List.Nodup

/-!
# What the gate keeps

Every instance has one place: installed behind the gate, taken out by the sweeper, taken out by
`Close`, or closed. The count of the active connections is exact, and a connection that got targets is
counted, so an instance that the sweeper takes has no connection left. A tracked connection is known
to the gate until `Close` takes the connections, and to `Close` from then on.

Relation: one atomic step of a handler, of the sweeper or of `Close`.
Boundary: the sweeper and `Close` close an instance outside the lock, so an instance that was taken out
may run beside the next one, and after `Close` has returned.
-/

namespace Throne.Core.Xray

open Lib List

/-- The connection is counted in `active`. -/
def HandlePc.counts : HandlePc → Bool
  | .counted | .touched | .ensured _ | .dialed _ | .relaying _ | .forgotUpstream _ | .leaving _ => true
  | _ => false

/-- The instance whose targets `ensure` returned, while the connection is counted. -/
def HandlePc.got : HandlePc → Option Nat
  | .ensured i | .dialed i | .relaying i | .forgotUpstream i => some i
  | .leaving i => i
  | _ => none

/-- The connections of the handler `h` that are tracked. -/
def HandlePc.tracks (h : Nat) : HandlePc → List Conn
  | .relaying _ => [.client h, .upstream h]
  | .accepted | .forgotClient | .done => []
  | _ => [.client h]

def SweeperPc.taken : SweeperPc → Option Nat
  | .closing i => some i
  | _ => none

def CloserPc.taken : CloserPc → Option Nat
  | .marked i | .signalled i | .unbridged i | .closingConns i _ => i
  | _ => none

/-- The connections that `Close` took and has not closed yet. -/
def CloserPc.rest : CloserPc → List Conn
  | .closingConns _ conns => conns
  | _ => []

def CloserPc.tookConns : CloserPc → Bool
  | .closingConns _ _ | .returned => true
  | _ => false

/-- The instances by their places. -/
def places (inst : Option Nat) (sweeper : SweeperPc) (closer : CloserPc) (closes : List (Nat × Closer)) : List Nat :=
  inst.toList ++ sweeper.taken.toList ++ closer.taken.toList ++ closes.map Prod.fst

/-- Every created instance has at most one place, and every started one has one. -/
structure Instances (places : List Nat) (created : Nat) (started : List Nat) : Prop where
  distinct : places.Nodup
  below : ∀ i ∈ places, i < created
  kept : ∀ i ∈ started, i ∈ places

/-- The instances that the sweeper closed or is about to close. -/
def swept (sweeper : SweeperPc) (closes : List (Nat × Closer)) : List Nat :=
  sweeper.taken.toList ++ (closes.filter fun close => close.2 = .sweep).map Prod.fst

/-- The gate knows the connection, or `Close` does. -/
def Held (conns : Option (List Conn)) (closer : CloserPc) (closedConns : List Conn) (conn : Conn) :
    Prop :=
  match conns with
  | some conns => conn ∈ conns
  | none => conn ∈ closer.rest ∨ conn ∈ closedConns

/-- What the progress of `Close` says about the gate. -/
structure Closing (closed : Bool) (inst : Option Nat) (closer : CloserPc)
    (conns : Option (List Conn)) : Prop where
  marked : closed = true ↔ closer ≠ .notCalled
  cleared : closed = true → inst = none
  taken : conns = none ↔ closer.tookConns = true

/-- The invariant. -/
structure Sound (g : Gate) : Prop where
  instances : Instances (places g.inst g.sweeper g.closer g.closes) g.created g.started
  closing : Closing g.closed g.inst g.closer g.conns
  active : g.active = (g.handles.countP HandlePc.counts : Nat)
  handed : ∀ pc ∈ g.handles, ∀ i, pc.got = some i → i ∉ swept g.sweeper g.closes
  tracked : ∀ (h : Nat) (pc : HandlePc), g.handles[h]? = some pc → ∀ conn ∈ pc.tracks h, Held g.conns g.closer g.closedConns conn

/-! ## Places -/

theorem Instances.perm {places places' : List Nat} {created : Nat} {started : List Nat}
    (h : Instances places created started) (hperm : places'.Perm places) : Instances places' created started where
  distinct := hperm.nodup_iff.2 h.distinct
  below := fun i hi => h.below i (hperm.mem_iff.1 hi)
  kept := fun i hi => hperm.mem_iff.2 (h.kept i hi)

/-- A new instance, started or not. -/
theorem Instances.create {places places' : List Nat} {created : Nat} {started started' : List Nat}
    (h : Instances places created started) (hperm : places'.Perm (created :: places))
    (hstarted : ∀ i ∈ started', i ∈ started ∨ i = created) : Instances places' (created + 1) started' where
  distinct := by
    rw [hperm.nodup_iff, nodup_cons]
    exact ⟨fun hmem => Nat.lt_irrefl created (h.below created hmem), h.distinct⟩
  below := by
    intro i hi
    rcases mem_cons.1 (hperm.mem_iff.1 hi) with rfl | hi
    · exact Nat.lt_succ_self i
    · exact Nat.lt_succ_of_lt (h.below i hi)
  kept := by
    intro i hi
    rw [hperm.mem_iff, mem_cons]
    rcases hstarted i hi with hold | rfl
    · exact .inr (h.kept i hold)
    · exact .inl rfl

variable {i : Nat}

/-- An installed instance was not taken by the sweeper. -/
theorem installed_not_swept {sweeper : SweeperPc} {closer : CloserPc}
    {closes : List (Nat × Closer)} (h : (places (some i) sweeper closer closes).Nodup) : i ∉ swept sweeper closes := by
  rw [places, Option.toList_some, singleton_append, cons_append, cons_append, nodup_cons] at h
  intro hmem
  refine h.1 ?_
  rw [mem_append, mem_append]
  rcases mem_append.1 hmem with htaken | hclosed
  · exact .inl (.inl htaken)
  · obtain ⟨close, hclose, rfl⟩ := mem_map.1 hclosed
    exact .inr (mem_map_of_mem (mem_filter.1 hclose).1)

/-! ## The start loop -/

/-- What a start leaves: the instance it returns is installed, nothing that the sweeper took changes,
and the instances that failed are closed. -/
structure Starts (g g' : Gate) (targets : Option Nat) : Prop where
  instances : Instances (places g'.inst g'.sweeper g'.closer g'.closes) g'.created g'.started
  returned : ∀ i, targets = some i → g'.inst = some i
  same_swept : swept g'.sweeper g'.closes = swept g.sweeper g.closes
  same : g'.closed = g.closed ∧ g'.closer = g.closer ∧ g'.conns = g.conns ∧
    g'.active = g.active ∧ g'.handles = g.handles ∧ g'.closedConns = g.closedConns

theorem places_close (inst : Option Nat) (sweeper : SweeperPc) (closer : CloserPc)
    (closes : List (Nat × Closer)) (i : Nat) (who : Closer) : (places inst sweeper closer (closes ++ [(i, who)])).Perm
    (i :: places inst sweeper closer closes) := by
  rw [places, map_append, ← append_assoc]
  exact perm_append_singleton i _

theorem swept_close_other (sweeper : SweeperPc) (closes : List (Nat × Closer)) (i : Nat)
    {who : Closer} (h : who ≠ .sweep) : swept sweeper (closes ++ [(i, who)]) = swept sweeper closes := by
  rw [swept, swept, filter_append, filter_cons_of_neg (by rw [decide_eq_true_eq]; exact h), filter_nil, append_nil]

variable {g : Gate}

theorem tryStart_starts (hg : Instances (places g.inst g.sweeper g.closer g.closes) g.created g.started)
    (hnone : g.inst = none) (n : Nat) (attempts : List Attempt) : Starts g (g.tryStart n attempts).1 (g.tryStart n attempts).2 := by
  induction n generalizing g attempts with
  | zero => exact ⟨hg, nofun, rfl, rfl, rfl, rfl, rfl, rfl, rfl⟩
  | succ n ih =>
    match attempts with
    | [] => exact ⟨hg, nofun, rfl, rfl, rfl, rfl, rfl, rfl, rfl⟩
    | .started :: rest =>
      refine ⟨?_, fun i hi => hi, rfl, rfl, rfl, rfl, rfl, rfl, rfl⟩
      refine hg.create ?_ ?_
      · rw [hnone]
        exact .refl _
      · intro i hi
        rcases mem_append.1 hi with hi | hi
        · exact .inl hi
        · exact .inr (mem_singleton.1 hi)
    | .failed created addrInUse :: rest =>
      have hfailed : ∀ g' : Gate, Starts g g' none → g'.inst = none → Starts g (if addrInUse then g'.tryStart n rest else
              ({ g' with failedAt := some g'.now }, none) : Gate × Option Nat).1
            (if addrInUse then g'.tryStart n rest else
              ({ g' with failedAt := some g'.now }, none) : Gate × Option Nat).2 := by
        intro g' hstarts hnone'
        obtain ⟨h1, h2, h3, h4, h5, h6⟩ := hstarts.same
        split
        · obtain ⟨hi, hr, hsw, k1, k2, k3, k4, k5, k6⟩ := ih hstarts.instances hnone' rest
          exact ⟨hi, hr, hsw.trans hstarts.same_swept, k1.trans h1, k2.trans h2, k3.trans h3, k4.trans h4, k5.trans h5, k6.trans h6⟩
        · exact ⟨hstarts.instances, nofun, hstarts.same_swept, hstarts.same⟩
      cases created with
      | false => exact hfailed g ⟨hg, nofun, rfl, rfl, rfl, rfl, rfl, rfl, rfl⟩ hnone
      | true =>
        refine hfailed (({ g with created := g.created + 1 } : Gate).closeInstance g.created .start)
          ⟨?_, nofun, ?_, rfl, rfl, rfl, rfl, rfl, rfl⟩ hnone
        · exact hg.create (places_close _ _ _ _ _ _) fun i hi => .inl hi
        · exact swept_close_other _ _ _ (by decide)

theorem ensure_starts (hg : Instances (places g.inst g.sweeper g.closer g.closes) g.created g.started)
    (attempts : List Attempt) : Starts g (g.ensure attempts).1 (g.ensure attempts).2 := by
  rw [Gate.ensure]
  split
  next => exact ⟨hg, nofun, rfl, rfl, rfl, rfl, rfl, rfl, rfl⟩
  next =>
    split
    next i hinst =>
      refine ⟨hg, fun j hj => ?_, rfl, rfl, rfl, rfl, rfl, rfl, rfl⟩
      rw [hinst]
      exact hj
    next hnone =>
      split
      next =>
        split
        next => exact ⟨hg, nofun, rfl, rfl, rfl, rfl, rfl, rfl, rfl⟩
        next => exact tryStart_starts hg hnone _ attempts
      next => exact tryStart_starts hg hnone _ attempts

/-- While the gate is closed nothing starts. -/
theorem ensure_closed (hclosed : g.closed = true) (attempts : List Attempt) : g.ensure attempts = (g, none) := by
  rw [Gate.ensure, if_pos hclosed]

/-- Nothing is installed in a closed gate. -/
theorem ensure_closing (hg : Closing g.closed g.inst g.closer g.conns) {attempts : List Attempt}
    (hstarts : Starts g (g.ensure attempts).1 (g.ensure attempts).2) :
    Closing (g.ensure attempts).1.closed (g.ensure attempts).1.inst (g.ensure attempts).1.closer (g.ensure attempts).1.conns := by
  obtain ⟨hclosed, hcloser, hconns, -, -, -⟩ := hstarts.same
  refine ⟨?_, ?_, ?_⟩
  · rw [hclosed, hcloser]
    exact hg.marked
  · intro hc
    rw [hclosed] at hc
    rw [ensure_closed hc]
    exact hg.cleared hc
  · rw [hconns, hcloser]
    exact hg.taken

/-! ## The handlers -/

variable {pc : HandlePc}

theorem countP_setPc {handles : List HandlePc} {h : Nat} (hpc : handles[h]? = some pc)
    (pc' : HandlePc) : ((handles.set h pc').countP HandlePc.counts : Int) =
    handles.countP HandlePc.counts - (if pc.counts then 1 else 0) + (if pc'.counts then 1 else 0) := by
  obtain ⟨hlt, hget⟩ := List.getElem?_eq_some_iff.1 hpc
  rw [countP_set hlt, hget]
  have hle : pc.counts = true → 1 ≤ handles.countP HandlePc.counts := by
    intro hcounts
    have hmem : pc ∈ handles := hget ▸ getElem_mem hlt
    exact countP_pos_iff.2 ⟨pc, hmem, hcounts⟩
  cases hcounts : pc.counts with
  | true =>
    have hpos := hle hcounts
    cases pc'.counts <;> simp only [if_true, Bool.false_eq_true, if_false] <;> omega
  | false =>
    cases pc'.counts <;> simp only [if_true, Bool.false_eq_true, if_false] <;> omega

variable {g' : Gate}

/-- A handler goes on to `pc'`; what it forgets are its own connections. -/
theorem Sound.handler {h : Nat} {pc' : HandlePc} (hs : Sound g) (hpc : g.handles[h]? = some pc) (hhandles : g'.handles = g.handles.set h pc')
    (hinstances : Instances (places g'.inst g'.sweeper g'.closer g'.closes) g'.created g'.started)
    (hclosing : Closing g'.closed g'.inst g'.closer g'.conns)
    (hactive : g'.active = g.active - (if pc.counts then 1 else 0) + (if pc'.counts then 1 else 0))
    (hswept : swept g'.sweeper g'.closes = swept g.sweeper g.closes) (hgot : ∀ i, pc'.got = some i → pc.got = some i ∨ g'.inst = some i)
    (hheld : ∀ conn, conn ≠ .client h → conn ≠ .upstream h → Held g.conns g.closer g.closedConns conn → Held g'.conns g'.closer g'.closedConns conn)
    (htracks : ∀ conn ∈ pc'.tracks h, Held g'.conns g'.closer g'.closedConns conn) : Sound g' where
  instances := hinstances
  closing := hclosing
  active := by
    rw [hactive, hs.active, hhandles]
    exact (countP_setPc hpc pc').symm
  handed := by
    intro pc'' hmem i hi
    rw [hhandles] at hmem
    rw [hswept]
    rcases mem_or_eq_of_mem_set hmem with hold | rfl
    · exact hs.handed pc'' hold i hi
    · rcases hgot i hi with hbefore | hinst
      · exact hs.handed pc (mem_of_getElem? hpc) i hbefore
      · rw [← hswept]
        have hdistinct := hinstances.distinct
        rw [hinst] at hdistinct
        exact installed_not_swept hdistinct
  tracked := by
    intro h' pc'' hpc'' conn hconn
    rw [hhandles, getElem?_set] at hpc''
    split at hpc''
    next heq =>
      subst heq
      split at hpc''
      next =>
        rw [Option.some.inj hpc''] at htracks
        exact htracks conn hconn
      next => exact absurd hpc'' (Option.some_ne_none _).symm
    next hne =>
      have hown : conn = .client h' ∨ conn = .upstream h' := by
        cases pc'' <;> simp [HandlePc.tracks] at hconn <;> simp [hconn]
      refine hheld conn ?_ ?_ (hs.tracked h' pc'' hpc'' conn hconn)
      · rcases hown with rfl | rfl
        · exact fun heq => hne (Conn.client.inj heq).symm
        · exact nofun
      · rcases hown with rfl | rfl
        · exact nofun
        · exact fun heq => hne (Conn.upstream.inj heq).symm

variable {conn : Conn}

theorem held_forget {other : Conn} (hne : other ≠ conn) (h : Held g.conns g.closer g.closedConns other) :
    Held (g.forget conn).conns g.closer g.closedConns other := by
  rw [Gate.forget]
  cases hconns : g.conns with
  | none =>
    rw [hconns] at h
    exact h
  | some conns =>
    rw [hconns] at h
    exact mem_filter.2 ⟨h, decide_eq_true hne⟩

theorem held_closeConn {other : Conn} (h : Held g.conns g.closer g.closedConns other) :
    Held g.conns g.closer (g.closeConn conn).closedConns other := by
  rw [Gate.closeConn]
  cases hconns : g.conns with
  | none =>
    rw [hconns] at h
    exact h.imp_right fun hmem => mem_append_left _ hmem
  | some conns =>
    rw [hconns] at h
    exact h

/-- A handler that keeps its connection and its place in the count. -/
theorem Sound.advance {h : Nat} {pc' : HandlePc} (hs : Sound g)
    (hpc : g.handles[h]? = some pc) (hg' : g' = { g with lastUse := g'.lastUse }.setPc h pc')
    (hcounts : pc'.counts = pc.counts) (hgot : ∀ i, pc'.got = some i → pc.got = some i)
    (htracks : ∀ conn ∈ pc'.tracks h, conn ∈ pc.tracks h) : Sound g' := by
  rw [hg']
  refine hs.handler hpc rfl hs.instances hs.closing ?_ rfl (fun i hi => .inl (hgot i hi))
    (fun _ _ _ hheld => hheld) fun conn hconn => hs.tracked h pc hpc conn (htracks conn hconn)
  show g.active = _
  rw [hcounts]
  omega

/-- A handler tracks a connection, or finds the gate closed. -/
theorem Sound.track {h : Nat} {kept refused : HandlePc} (hs : Sound g) (hpc : g.handles[h]? = some pc) (hcounts : kept.counts = pc.counts)
    (hcounts' : refused.counts = pc.counts) (hgot : kept.got = pc.got)
    (hgot' : refused.got = pc.got) (htracks : ∀ c ∈ kept.tracks h, c ∈ pc.tracks h ∨ c = conn)
    (htracks' : ∀ c ∈ refused.tracks h, c ∈ pc.tracks h) : Sound (if (g.track conn).2 then (g.track conn).1.setPc h kept
    else (g.track conn).1.setPc h refused) := by
  rw [Gate.track]
  cases hconns : g.conns with
  | none =>
    exact hs.advance hpc rfl hcounts' (fun i hi => hgot' ▸ hi) htracks'
  | some conns =>
    have hgrows : ∀ c, Held g.conns g.closer g.closedConns c → c ∈ conns ++ [conn] := by
      intro c hc
      rw [hconns] at hc
      exact mem_append_left _ hc
    refine hs.handler hpc rfl hs.instances ?_ ?_ rfl (fun i hi => .inl (hgot ▸ hi)) (fun c _ _ hc => hgrows c hc) ?_
    · have htaken := hs.closing.taken
      rw [hconns] at htaken
      exact ⟨hs.closing.marked, hs.closing.cleared, nofun, fun h => nomatch htaken.2 h⟩
    · show g.active = _
      rw [hcounts]
      omega
    · intro c hc
      rcases htracks c hc with hold | rfl
      · exact hgrows c (hs.tracked h pc hpc c hold)
      · exact mem_append_right _ (mem_singleton_self _)

theorem closing_forget (hs : Sound g) (conn : Conn) : Closing g.closed g.inst g.closer (g.forget conn).conns := by
  refine ⟨hs.closing.marked, hs.closing.cleared, ?_⟩
  rw [← hs.closing.taken, Gate.forget, Option.map_eq_none_iff]

/-- One step of a handler keeps the invariant. -/
theorem handleStep_sound (hs : Sound g) {h : Nat} (hpc : g.handles[h]? = some pc)
    (attempts : List Attempt) (dialed : Bool) : Sound (g.handleStep h attempts dialed pc) := by
  cases pc with
  | accepted =>
    exact hs.track hpc rfl rfl rfl rfl (fun c hc => .inr (mem_singleton.1 hc)) (fun c hc => hc)
  | tracked =>
    exact hs.handler hpc rfl hs.instances hs.closing (by show g.active + 1 = _; simp [HandlePc.counts])
      rfl nofun (fun _ _ _ hheld => hheld) (hs.tracked h .tracked hpc)
  | counted | uncounted => exact hs.advance hpc rfl rfl (fun i hi => hi) fun conn hconn => hconn
  | touched =>
    have hstarts := ensure_starts hs.instances attempts
    have hinst := ensure_closing hs.closing hstarts
    rw [Gate.handleStep]
    generalize g.ensure attempts = result at hstarts hinst
    obtain ⟨g', targets⟩ := result
    obtain ⟨hclosed, hcloser, hconns, hactive, hhandles, hclosedConns⟩ := hstarts.same
    have hheld : ∀ conn, Held g.conns g.closer g.closedConns conn → Held g'.conns g'.closer g'.closedConns conn := by
      intro conn hconn
      rw [hconns, hcloser, hclosedConns]
      exact hconn
    have hset : ∀ pc', (g'.setPc h pc').handles = g.handles.set h pc' := by
      intro pc'
      rw [← hhandles]
      rfl
    have hcount : g'.active = g.active - 1 + 1 := by
      rw [hactive]
      omega
    have htracks : ∀ conn ∈ [Conn.client h], Held g'.conns g'.closer g'.closedConns conn :=
      fun conn hconn => hheld conn (hs.tracked h .touched hpc conn hconn)
    cases targets with
    | some i =>
      exact hs.handler hpc (hset _) hstarts.instances hinst hcount hstarts.same_swept (fun j hj => .inr (Option.some.inj hj ▸ hstarts.returned i rfl))
        (fun conn _ _ => hheld conn) htracks
    | none =>
      exact hs.handler hpc (hset _) hstarts.instances hinst hcount hstarts.same_swept nofun (fun conn _ _ => hheld conn) htracks
  | ensured i =>
    rw [Gate.handleStep]
    split <;> exact hs.advance hpc rfl rfl (fun j hj => hj) fun conn hconn => hconn
  | dialed i =>
    refine hs.track hpc rfl rfl rfl rfl (fun c hc => ?_) (fun c hc => hc)
    rcases mem_cons.1 hc with rfl | hc
    · exact .inl (mem_singleton_self _)
    · exact .inr (mem_singleton.1 hc)
  | relaying i =>
    refine hs.handler hpc rfl hs.instances (closing_forget hs _) ?_ rfl (fun j hj => .inl hj) (fun conn _ hne hheld => held_forget hne hheld) ?_
    · show g.active = _
      simp [HandlePc.counts]
    · intro conn hconn
      rw [mem_singleton.1 hconn]
      exact held_forget nofun (hs.tracked h _ hpc _ mem_cons_self)
  | forgotUpstream i =>
    refine hs.handler hpc rfl hs.instances hs.closing ?_ rfl (fun j hj => .inl hj) (fun conn _ _ hheld => held_closeConn hheld) fun conn hconn =>
        held_closeConn (hs.tracked h _ hpc conn hconn)
    show g.active = _
    simp [HandlePc.counts]
  | leaving i =>
    refine hs.handler hpc rfl hs.instances hs.closing ?_ rfl nofun (fun _ _ _ hheld => hheld) (hs.tracked h (.leaving i) hpc)
    show g.active - 1 = _
    simp [HandlePc.counts]
  | untouched =>
    refine hs.handler hpc rfl hs.instances (closing_forget hs _) ?_ rfl (fun j hj => .inl hj)
      (fun conn hne _ hheld => held_forget hne hheld) (forall_mem_nil _)
    show g.active = _
    simp [HandlePc.counts]
  | forgotClient =>
    refine hs.handler hpc rfl hs.instances hs.closing ?_ rfl (fun j hj => .inl hj) (fun conn _ _ hheld => held_closeConn hheld) (forall_mem_nil _)
    show g.active = _
    simp [HandlePc.counts]
  | done => exact hs

/-! ## The sweeper -/

/-- With no active connection no handler has targets. -/
theorem Sound.none_got (hs : Sound g) (hidle : g.active = 0) (hmem : pc ∈ g.handles) : pc.got = none := by
  have hzero : g.handles.countP HandlePc.counts = 0 := by
    have := hs.active
    omega
  have hnot := countP_eq_zero.1 hzero pc hmem
  cases pc with
  | ensured | dialed | relaying | forgotUpstream | leaving => exact absurd rfl hnot
  | accepted | tracked | counted | touched | uncounted | untouched | forgotClient | done => rfl

/-- The instance that the sweeper took is closed. -/
theorem places_swept (inst : Option Nat) (closer : CloserPc) (closes : List (Nat × Closer)) (i : Nat) :
    (places inst .waiting closer (closes ++ [(i, .sweep)])).Perm (places inst (.closing i) closer closes) := by
  refine (places_close inst .waiting closer closes i .sweep).trans ?_
  simp only [places, SweeperPc.taken, Option.toList_some, Option.toList_none, append_assoc, nil_append, singleton_append]
  exact perm_middle.symm

/-- The instance that `Close` took is closed. -/
theorem places_closed (inst : Option Nat) (sweeper : SweeperPc) (closes : List (Nat × Closer))
    (i : Nat) (rest : List Conn) : (places inst sweeper .returned (closes ++ [(i, .close)])).Perm
    (places inst sweeper (.closingConns (some i) rest) closes) := by
  refine (places_close inst sweeper .returned closes i .close).trans ?_
  simp only [places, CloserPc.taken, Option.toList_some, Option.toList_none, append_assoc, nil_append, singleton_append]
  rw [← append_assoc, ← append_assoc]
  exact perm_middle.symm

/-- `Close` takes the instance. -/
theorem places_marked (inst : Option Nat) (sweeper : SweeperPc) (closes : List (Nat × Closer)) :
    (places none sweeper (.marked inst) closes).Perm (places inst sweeper .notCalled closes) := by
  simp only [places, CloserPc.taken, Option.toList_none, nil_append, append_nil]
  exact List.perm_append_comm.append_right _

theorem swept_closed (closes : List (Nat × Closer)) (i j : Nat) : j ∈ swept .waiting (closes ++ [(i, .sweep)]) ↔ j ∈ swept (.closing i) closes := by
  simp only [swept, SweeperPc.taken, Option.toList_some, Option.toList_none, filter_append, map_append, mem_append, nil_append]
  exact or_comm

theorem sweepStep_sound (hs : Sound g) (tick : Bool) : Sound (g.sweepStep tick) := by
  have hquiet : ∀ pc : SweeperPc, pc.taken = none → g.sweeper.taken = none → Sound { g with sweeper := pc } := by
    intro pc hpc hold
    refine ⟨?_, hs.closing, hs.active, ?_, hs.tracked⟩
    · show Instances (places g.inst pc g.closer g.closes) g.created g.started
      rw [places, hpc, ← hold]
      exact hs.instances
    · intro pc' hmem i hi
      show i ∉ swept pc g.closes
      rw [swept, hpc, ← hold]
      exact hs.handed pc' hmem i hi
  rw [Gate.sweepStep]
  split
  next hpc =>
    have hnone : g.sweeper.taken = none := by rw [hpc]; rfl
    split
    next =>
      split
      next => exact hquiet .checked rfl hnone
      next => exact hs
    next =>
      split
      next => exact hquiet .ended rfl hnone
      next => exact hs
  next hpc =>
    have hnone : g.sweeper.taken = none := by rw [hpc]; rfl
    split
    next hidle =>
      have hzero : g.active = 0 := by
        rw [Gate.idleNow, Bool.and_eq_true, Bool.and_eq_true] at hidle
        exact eq_of_beq hidle.1.2
      have hclosing : Closing g.closed none g.closer g.conns :=
        ⟨hs.closing.marked, fun _ => rfl, hs.closing.taken⟩
      have hgot : ∀ pc ∈ g.handles, ∀ i, pc.got = some i → ∀ l : List Nat, i ∉ l := by
        intro pc hmem i hi
        rw [hs.none_got hzero hmem] at hi
        exact absurd hi (Option.some_ne_none i).symm
      have hinstances := hs.instances
      rw [hpc] at hinstances
      cases hinst : g.inst with
      | none | some i =>
        rw [hinst] at hinstances
        exact ⟨hinstances, hclosing, hs.active, fun pc hmem i hi => hgot pc hmem i hi _, hs.tracked⟩
    next => exact hquiet .waiting rfl hnone
  next i hpc =>
    have hinstances := hs.instances
    have hhanded := hs.handed
    rw [hpc] at hinstances hhanded
    refine ⟨?_, hs.closing, hs.active, ?_, hs.tracked⟩
    · exact hinstances.perm (places_swept g.inst g.closer g.closes i)
    · intro pc hmem j hj
      show j ∉ swept .waiting (g.closes ++ [(i, .sweep)])
      rw [swept_closed]
      exact hhanded pc hmem j hj
  next => exact hs

/-! ## Close -/

/-- A step of `Close` that leaves the handlers and the sweeper alone. -/
theorem Sound.close (hs : Sound g) (hsame : g'.handles = g.handles ∧ g'.active = g.active)
    (hinstances : Instances (places g'.inst g'.sweeper g'.closer g'.closes) g'.created g'.started)
    (hclosing : Closing g'.closed g'.inst g'.closer g'.conns) (hswept : swept g'.sweeper g'.closes = swept g.sweeper g.closes)
    (hheld : ∀ conn, Held g.conns g.closer g.closedConns conn → Held g'.conns g'.closer g'.closedConns conn) : Sound g' where
  instances := hinstances
  closing := hclosing
  active := by
    rw [hsame.1, hsame.2]
    exact hs.active
  handed := by
    rw [hsame.1, hswept]
    exact hs.handed
  tracked := by
    intro h pc hpc conn hconn
    rw [hsame.1] at hpc
    exact hheld conn (hs.tracked h pc hpc conn hconn)

/-- Before `Close` takes the connections, its progress does not matter to them. -/
theorem held_open {conns : Option (List Conn)} {closer closer' : CloserPc} {closedConns : List Conn}
    (hopen : conns ≠ none) (h : Held conns closer closedConns conn) : Held conns closer' closedConns conn := by
  cases conns with
  | none => exact absurd rfl hopen
  | some conns => exact h

theorem closeStep_sound (hs : Sound g) (conn : Conn) : Sound (g.closeStep conn) := by
  have hinstances := hs.instances
  have hclosing := hs.closing
  have hclosed : g.closer ≠ .notCalled → g.closed = true := hclosing.marked.2
  have hopen : g.closer.tookConns = false → g.conns ≠ none := by
    intro hnot hnone
    rw [hclosing.taken.1 hnone] at hnot
    exact absurd hnot Bool.true_eq_false.mp
  -- Until the connections are taken only the progress changes.
  have hearly : ∀ closer : CloserPc, g.closer.tookConns = false → closer.tookConns = false →
      closer ≠ .notCalled → g.closed = true → Closing g.closed g.inst closer g.conns := by
    intro closer hnot hnot' hcalled hmarked
    refine ⟨⟨fun _ => hcalled, fun _ => hmarked⟩, hclosing.cleared, ?_⟩
    rw [hnot']
    exact ⟨fun hnone => absurd hnone (hopen hnot), fun h => absurd h Bool.false_ne_true⟩
  rw [Gate.closeStep]
  split
  next hpc =>
    rw [hpc] at hinstances hopen
    refine hs.close ⟨rfl, rfl⟩ (hinstances.perm (places_marked g.inst g.sweeper g.closes)) ?_ rfl fun _ => held_open (hopen rfl)
    exact ⟨⟨fun _ h => (nomatch h), fun _ => rfl⟩, fun _ => rfl, fun hnone => absurd hnone (hopen rfl), fun h => absurd h Bool.false_ne_true⟩
  next i hpc =>
    rw [hpc] at hinstances hopen hclosed hearly
    exact hs.close ⟨rfl, rfl⟩ hinstances (hearly (.signalled i) rfl rfl (fun h => nomatch h) (hclosed fun h => nomatch h)) rfl
      fun _ => held_open (hopen rfl)
  next i hpc =>
    rw [hpc] at hinstances hopen hclosed hearly
    exact hs.close ⟨rfl, rfl⟩ hinstances (hearly (.unbridged i) rfl rfl (fun h => nomatch h) (hclosed fun h => nomatch h)) rfl
      fun _ => held_open (hopen rfl)
  next i hpc =>
    rw [hpc] at hinstances hclosed
    refine hs.close ⟨rfl, rfl⟩ hinstances ?_ rfl fun c hc => ?_
    · exact ⟨⟨fun _ h => (nomatch h), fun _ => hclosed fun h => nomatch h⟩, hclosing.cleared, fun _ => rfl, fun _ => rfl⟩
    · cases hconns : g.conns with
      | none =>
        have htaken := hclosing.taken.1 hconns
        rw [hpc] at htaken
        cases htaken
      | some conns =>
        rw [hconns] at hc
        show c ∈ ((some conns).getD []) ∨ c ∈ g.closedConns
        exact .inl hc
  next i conns hpc =>
    have hnone : g.conns = none := by
      rw [hclosing.taken, hpc]
      rfl
    have hmarked : g.closed = true := hclosed (by rw [hpc]; exact fun h => nomatch h)
    have hcleared : g.inst = none := hclosing.cleared hmarked
    rw [hpc] at hinstances
    have hlater : ∀ closer : CloserPc, closer ≠ .notCalled → closer.tookConns = true → Closing g.closed g.inst closer g.conns := by
      intro closer hcalled htook
      exact ⟨⟨fun _ => hcalled, fun _ => hmarked⟩, hclosing.cleared, fun _ => htook, fun _ => hnone⟩
    split
    next hmem =>
      refine hs.close ⟨rfl, rfl⟩ hinstances (hlater _ (fun h => nomatch h) rfl) rfl fun c hc => ?_
      rw [hnone, hpc] at hc
      show Held g.conns _ _ c
      rw [hnone]
      rcases Decidable.em (c = conn) with rfl | hne
      · exact .inr (mem_append_right _ (mem_singleton_self _))
      · exact hc.imp (fun hin => mem_filter.2 ⟨hin, decide_eq_true hne⟩) (fun hin => mem_append_left _ hin)
    next =>
      split
      next => exact hs
      next hempty =>
        have hnil : conns = [] := by
          rw [Bool.not_eq_false] at hempty
          exact List.isEmpty_iff.1 hempty
        have hheld : ∀ c, Held g.conns g.closer g.closedConns c → Held g.conns .returned g.closedConns c := by
          intro c hc
          rw [hnone, hpc, hnil] at hc
          rw [hnone]
          exact hc
        split
        next j =>
          exact hs.close ⟨rfl, rfl⟩ (hinstances.perm (places_closed g.inst g.sweeper g.closes j conns))
            (hlater .returned (fun h => nomatch h) rfl) (swept_close_other _ _ _ (by decide)) hheld
        next =>
          exact hs.close ⟨rfl, rfl⟩ hinstances (hlater .returned (fun h => nomatch h) rfl) rfl hheld
  next => exact hs

/-! ## Runs -/

/-- One step keeps the invariant. -/
theorem sound_step (g : Gate) (e : Event) (hs : Sound g) : Sound (step g e) := by
  cases e with
  | tick elapsed => exact ⟨hs.instances, hs.closing, hs.active, hs.handed, hs.tracked⟩
  | accept =>
    rw [step]
    split
    next =>
      refine ⟨hs.instances, hs.closing, ?_, ?_, ?_⟩
      · show g.active = ((g.handles ++ [HandlePc.accepted]).countP HandlePc.counts : Nat)
        rw [countP_append, hs.active]
        rfl
      · intro pc hmem i hi
        rcases mem_append.1 hmem with hold | hnew
        · exact hs.handed pc hold i hi
        · rw [mem_singleton.1 hnew] at hi
          cases hi
      · intro h pc hpc conn hconn
        rw [getElem?_append] at hpc
        split at hpc
        next => exact hs.tracked h pc hpc conn hconn
        next =>
          have hpc := mem_of_getElem? hpc
          rw [mem_singleton.1 hpc] at hconn
          cases hconn
    next => exact hs
  | handle h attempts dialed =>
    rw [step]
    split
    next pc hpc => exact handleStep_sound hs hpc attempts dialed
    next => exact hs
  | sweep tick => exact sweepStep_sound hs tick
  | close conn => exact closeStep_sound hs conn

theorem sound_start (idle now : Nat) : Sound (startGate idle now) where
  instances := ⟨nodup_nil, forall_mem_nil _, forall_mem_nil _⟩
  closing := ⟨⟨nofun, fun h => absurd rfl h⟩, nofun,
    nofun, nofun⟩
  active := rfl
  handed := forall_mem_nil _
  tracked := nofun

/-- In a closed gate no step of a handler starts an instance. -/
theorem handleStep_closed (hclosed : g.closed = true) (h : Nat) (attempts : List Attempt)
    (dialed : Bool) (pc : HandlePc) : (g.handleStep h attempts dialed pc).started = g.started ∧
    (g.handleStep h attempts dialed pc).closed = true := by
  have htrack : ∀ (conn : Conn) (next refused : HandlePc), (if (g.track conn).2 then (g.track conn).1.setPc h next
          else (g.track conn).1.setPc h refused).started = g.started ∧
        (if (g.track conn).2 then (g.track conn).1.setPc h next
          else (g.track conn).1.setPc h refused).closed = true := by
    intro conn next refused
    rw [Gate.track]
    cases g.conns with
    | none | some conns => exact ⟨rfl, hclosed⟩
  cases pc with
  | accepted | dialed i => exact htrack _ _ _
  | touched =>
    rw [Gate.handleStep, ensure_closed hclosed]
    exact ⟨rfl, hclosed⟩
  | ensured i =>
    rw [Gate.handleStep]
    split <;> exact ⟨rfl, hclosed⟩
  | tracked | counted | relaying | forgotUpstream | leaving | uncounted | untouched | forgotClient
  | done => exact ⟨rfl, hclosed⟩

/-- Once closed, a gate starts nothing and stays closed. -/
theorem step_closed (hclosed : g.closed = true) (e : Event) : (step g e).started = g.started ∧ (step g e).closed = true := by
  cases e with
  | tick elapsed => exact ⟨rfl, hclosed⟩
  | accept =>
    rw [step]
    split <;> exact ⟨rfl, hclosed⟩
  | handle h attempts dialed =>
    rw [step]
    split
    · exact handleStep_closed hclosed h attempts dialed _
    · exact ⟨rfl, hclosed⟩
  | sweep tick =>
    rw [step, Gate.sweepStep]
    split
    · split
      all_goals split <;> exact ⟨rfl, hclosed⟩
    · split <;> exact ⟨rfl, hclosed⟩
    all_goals exact ⟨rfl, hclosed⟩
  | close conn =>
    rw [step, Gate.closeStep]
    split
    · exact ⟨rfl, rfl⟩
    · exact ⟨rfl, hclosed⟩
    · exact ⟨rfl, hclosed⟩
    · exact ⟨rfl, hclosed⟩
    · split
      · exact ⟨rfl, hclosed⟩
      · split
        · exact ⟨rfl, hclosed⟩
        · split <;> exact ⟨rfl, hclosed⟩
    · exact ⟨rfl, hclosed⟩

/-- A started instance that is not closed yet. -/
def Running (g : Gate) (i : Nat) : Prop := i ∈ g.started ∧ i ∉ g.closes.map Prod.fst

/-- The sweeper or `Close` took the instance out and is to close it. -/
def TakenOut (g : Gate) (i : Nat) : Prop := g.sweeper = .closing i ∨ g.closer.taken = some i

structure GateSafe (g : Gate) : Prop where
  /-- The sweeper does not close an instance under a counted connection that got its targets. -/
  handed : ∀ pc ∈ g.handles, ∀ i, pc.got = some i → g.sweeper ≠ .closing i ∧ (i, Closer.sweep) ∉ g.closes
  once : (g.closes.map Prod.fst).Nodup
  /-- A closed instance has no other place, so nobody closes it again. -/
  settled : ∀ i ∈ g.closes.map Prod.fst, g.inst ≠ some i ∧ ¬TakenOut g i
  placed : ∀ i, Running g i → g.inst = some i ∨ TakenOut g i
  one : ∀ i j, Running g i → Running g j → ¬TakenOut g i → ¬TakenOut g j → i = j
  closed : g.closed = true → g.inst = none ∧ ∀ e, (step g e).started = g.started ∧ (step g e).closed = true
  returned : g.closer = .returned → g.closed = true ∧ (∀ i, Running g i → g.sweeper = .closing i) ∧
    ∀ (h : Nat) (pc : HandlePc), g.handles[h]? = some pc → ∀ conn ∈ pc.tracks h, conn ∈ g.closedConns

theorem SweeperPc.mem_taken {pc : SweeperPc} : i ∈ pc.taken.toList ↔ pc = .closing i := by
  cases pc with
  | closing j =>
    rw [SweeperPc.taken, Option.toList_some, mem_singleton]
    exact ⟨fun h => h ▸ rfl, fun h => (SweeperPc.closing.inj h).symm⟩
  | waiting | checked | ended => exact ⟨nofun, nofun⟩

/-- A running instance is installed or taken out. -/
theorem Sound.placed (hs : Sound g) (h : Running g i) : g.inst = some i ∨ TakenOut g i := by
  have hmem := hs.instances.kept i h.1
  rw [places, mem_append, mem_append, mem_append, SweeperPc.mem_taken, Option.mem_toList, Option.mem_toList] at hmem
  rcases hmem with ((hinst | hsweeper) | hcloser) | hclosed
  · exact .inl hinst
  · exact .inr (.inl hsweeper)
  · exact .inr (.inr hcloser)
  · exact absurd hclosed h.2

theorem Sound.gateSafe (hs : Sound g) : GateSafe g where
  handed := by
    intro pc hmem i hi
    have hnot := hs.handed pc hmem i hi
    rw [swept, mem_append, not_or, SweeperPc.mem_taken] at hnot
    refine ⟨hnot.1, fun hclose => hnot.2 ?_⟩
    have hin : (i, Closer.sweep) ∈ g.closes.filter fun close => close.2 = .sweep :=
      mem_filter.2 ⟨hclose, decide_eq_true rfl⟩
    exact mem_map_of_mem hin
  once := (nodup_append.1 hs.instances.distinct).2.1
  settled := by
    intro i hclosed
    have hdisjoint := (nodup_append.1 hs.instances.distinct).2.2
    have hnot : i ∉ g.inst.toList ++ g.sweeper.taken.toList ++ g.closer.taken.toList :=
      fun hmem => hdisjoint i hmem i hclosed rfl
    rw [mem_append, mem_append, SweeperPc.mem_taken, Option.mem_toList, Option.mem_toList, not_or, not_or] at hnot
    exact ⟨hnot.1.1, fun htaken => htaken.elim hnot.1.2 hnot.2⟩
  placed := fun _ h => hs.placed h
  one := by
    intro i j hi hj hout hout'
    rcases hs.placed hi with hinst | htaken
    · rcases hs.placed hj with hinst' | htaken'
      · exact Option.some.inj (hinst.symm.trans hinst')
      · exact absurd htaken' hout'
    · exact absurd htaken hout
  closed := fun hclosed => ⟨hs.closing.cleared hclosed, step_closed hclosed⟩
  returned := by
    intro hreturned
    have hclosed : g.closed = true := by
      rw [hs.closing.marked, hreturned]
      exact nofun
    have hnone : g.conns = none := by
      rw [hs.closing.taken, hreturned]
      rfl
    refine ⟨hclosed, fun i hi => ?_, fun h pc hpc conn hconn => ?_⟩
    · rcases hs.placed hi with hinst | hsweeper | hcloser
      · rw [hs.closing.cleared hclosed] at hinst
        cases hinst
      · exact hsweeper
      · rw [hreturned] at hcloser
        cases hcloser
    · have hheld := hs.tracked h pc hpc conn hconn
      rw [hnone, hreturned] at hheld
      rcases hheld with hrest | hin
      · cases hrest
      · exact hin

/-- After any interleaving of the steps of the handlers, the sweeper and `Close`, the gate is safe. -/
theorem gate_safe (idle now : Nat) (events : List Event) : GateSafe (Runs.run step (startGate idle now) events) :=
  (Runs.inv_run_all sound_step events (startGate idle now) (sound_start idle now)).gateSafe

/-- **The count is exact**: `active` counts the handlers between their two additions to it, and while it is 0 no
connection holds targets. -/
theorem active_exact (idle now : Nat) (events : List Event) :
    let g := Runs.run step (startGate idle now) events
    g.active = g.handles.countP HandlePc.counts ∧ (g.active = 0 → ∀ pc ∈ g.handles, pc.got = none) := by
  have hs := Runs.inv_run_all sound_step events (startGate idle now) (sound_start idle now)
  exact ⟨hs.active, fun hidle _ hmem => hs.none_got hidle hmem⟩

instance (g : Gate) (i : Nat) : Decidable (Running g i) := inferInstanceAs (Decidable (i ∈ g.started ∧ i ∉ g.closes.map Prod.fst))

/-- The steps of one connection up to the targets, and then off the count. -/
def visit (h : Nat) : List Event := [.handle h [] true, .handle h [] true, .handle h [] true, .handle h [.started] true]

/-- An idle instance is taken out by the sweeper, and the next connection comes before it is closed. -/
def overlap : List Event :=
  [.accept] ++ visit 0 ++ [.handle 0 [] false, .handle 0 [] true, .handle 0 [] true, .tick 60, .sweep true, .sweep true, .accept] ++ visit 1

/-- The gate is closed while the sweeper is about to close the instance. -/
def closedBeside : List Event :=
  [.accept] ++ visit 0 ++ [.handle 0 [] false, .handle 0 [] true, .handle 0 [] true, .tick 60, .sweep true, .sweep true] ++
    [.close (.client 0), .close (.client 0), .close (.client 0), .close (.client 0), .close (.client 0), .close (.client 0)]

/-- Two instances run at a time, and one still runs after `Close` has returned. -/
theorem two_instances_run : (Running (Runs.run step (startGate 30 0) overlap) 0 ∧ Running (Runs.run step (startGate 30 0) overlap) 1) ∧
    (Runs.run step (startGate 30 0) closedBeside).closer = .returned ∧ Running (Runs.run step (startGate 30 0) closedBeside) 0 := by
  decide

end Throne.Core.Xray
