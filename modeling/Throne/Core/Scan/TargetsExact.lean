import Throne.Core.Scan.Targets
import Mathlib.Data.Nat.Size

/-!
# Scan target enumeration is exact

The ranges of `NewTargets` tile the positions below `Total`, the `k`-th range holding the hosts and
ports of the `k`-th valid entry (`laidOut_newTargets`). `targets_exact` collects what follows: every
position has a target, in the prefix and the port list of its entry; different positions have
different targets within an entry; and without sampling and saturation every address and port of an
entry has exactly one position.
-/

namespace Throne.Core.Scan

open Lib.Permutation Lib.Tiling List

/-- The prefixes and ports of the valid entries, in order. -/
def validEntries (net : Netip) (spec : Spec) : List (Prefix × List Nat) := spec.entries.filterMap (validEntry net spec)

/-- The hosts a range scans under a host limit. -/
def TargetRange.hosts (limit : Nat) (r : TargetRange) : Nat := (entryHosts limit r.hostBits).1

/-- The length of a range that starts at `lo`: all its hosts and ports, cut where the positions run
out. -/
def RangeLength (limit : Nat) (lo : Nat) (r : TargetRange) (c : Nat) : Prop := c = min (r.hosts limit * r.ports.length) (maxTargetTotal - lo)

/-- The range made for a valid entry. -/
def RangeOf (spec : Spec) (e : Prefix × List Nat) (r : TargetRange) : Prop :=
  r = newRange spec.seed.toNat e.1 (entryHosts spec.limit e.1.hostBits).2 e.2 r.start

/-- The state of the loop in `NewTargets` after the valid entries `valid`: the ranges tile the
positions given out, one range for each entry until the positions ran out. -/
structure LaidOut (spec : Spec) (valid : List (Prefix × List Nat)) (t : Targets) : Prop where
  tiles : Tiles (·.start) (RangeLength spec.limit) t.ranges 0 t.total
  total_le : t.total ≤ maxTargetTotal
  origin : ∃ used rest, valid = used ++ rest ∧ (rest = [] ∨ t.total = maxTargetTotal) ∧ List.Forall₂ (RangeOf spec) used t.ranges
  sampled : t.sampledEntries = 0 → ∀ r ∈ t.ranges, r.sampled = false

variable {e : Prefix × List Nat}

/-- What a valid entry guarantees. -/
theorem validEntry_facts {net : Netip} {spec : Spec} {entry : Entry} (h : validEntry net spec entry = some e) :
    e.1.addr.toNat % 2 ^ e.1.hostBits = 0 ∧ 0 < e.2.length ∧ e.2.Nodup := by
  unfold validEntry at h
  cases hp : parseTargetPrefix net entry.cidr with
  | none => simp [hp] at h
  | some p =>
    simp only [hp] at h
    split at h
    · cases h
    · simp only [Option.some.injEq] at h
      subst h
      exact ⟨parseTargetPrefix_aligned hp, entryPorts_facts _ _ (normalizePorts_nodup spec.defaultPorts)⟩

variable {r : TargetRange}

theorem rangeOk_newRange (spec : Spec)
    (haligned : e.1.addr.toNat % 2 ^ e.1.hostBits = 0) (hpos : 0 < e.2.length) (hnodup : e.2.Nodup) (hr : RangeOf spec e r) : RangeOk r (r.hosts spec.limit) := by
  obtain ⟨-, henum, hdrawn⟩ := entryHosts_facts e.1.hostBits spec.limit_lt
  rw [hr]
  exact
    { hostBits_le := Nat.sub_le _ _
      aligned := haligned
      ports_pos := hpos
      ports_nodup := hnodup
      enumerated := henum
      drawn := fun hs => ⟨(hdrawn hs).1, (hdrawn hs).2, spec.seed.toNat ^^^ prefixHash e.1, if_pos hs⟩ }

/-- One entry keeps the layout. -/
theorem laidOut_addEntry (net : Netip) (spec : Spec) {valid : List (Prefix × List Nat)} {t : Targets}
    (h : LaidOut spec valid t) (entry : Entry) : LaidOut spec (valid ++ (validEntry net spec entry).toList) (addEntry net spec t entry) := by
  unfold addEntry
  cases hv : validEntry net spec entry with
  | none =>
    rw [Option.toList_none, append_nil]
    exact ⟨h.tiles, h.total_le, h.origin, h.sampled⟩
  | some e =>
    obtain ⟨-, hports, -⟩ := validEntry_facts hv
    obtain ⟨hhosts, -, -⟩ := entryHosts_facts e.1.hostBits spec.limit_lt
    have hcap : 0 < (entryHosts spec.limit e.1.hostBits).1 * e.2.length := Nat.mul_pos hhosts hports
    obtain ⟨used, rest, hvalid, hrest, hmatch⟩ := h.origin
    have hle := h.total_le
    simp only [saturatingMul_eq, Option.toList_some]
    split
    · next hzero =>
      -- No position is left, so the entry joins those that got none.
      have hfull : t.total = maxTargetTotal := by
        simp only [maxTargetTotal] at *
        omega
      refine ⟨h.tiles, h.total_le, ⟨used, rest ++ [e], ?_, .inr hfull, hmatch⟩, h.sampled⟩
      rw [hvalid, append_assoc]
    · next hcount =>
      have hempty : rest = [] := by
        rcases hrest with hnil | hfull
        · exact hnil
        · exact absurd (by rw [hfull]; simp) hcount
      subst hempty
      rw [append_nil] at hvalid
      subst hvalid
      have hc : ∀ c, c = min (min ((entryHosts spec.limit e.1.hostBits).1 * e.2.length) maxTargetTotal) (maxTargetTotal - t.total) →
          c = min ((entryHosts spec.limit e.1.hostBits).1 * e.2.length) (maxTargetTotal - t.total) := by
        intro c hc
        omega
      refine ⟨?_, ?_, ⟨valid ++ [e], [], by simp, .inl rfl, ?_⟩, ?_⟩
      · exact h.tiles.snoc rfl (Nat.pos_of_ne_zero hcount) (hc _ rfl)
      · show t.total + _ ≤ maxTargetTotal
        omega
      · exact rel_append hmatch (List.Forall₂.cons rfl List.Forall₂.nil)
      · intro hs r hr
        rw [mem_append, mem_singleton] at hr
        cases hsampled : (entryHosts spec.limit e.1.hostBits).2 with
        | true => simp [hsampled] at hs
        | false =>
          simp only [hsampled, Bool.false_eq_true, if_false] at hs
          rcases hr with hr | rfl
          · exact h.sampled hs r hr
          · exact hsampled

theorem laidOut_foldl (net : Netip) (spec : Spec) : ∀ (entries : List Entry) (valid : List (Prefix × List Nat)) (t : Targets), LaidOut spec valid t →
    LaidOut spec (valid ++ entries.filterMap (validEntry net spec)) (entries.foldl (addEntry net spec) t) := by
  intro entries
  induction entries with
  | nil => intro valid t h; simpa using h
  | cons entry entries ih =>
    intro valid t h
    have hstep := ih _ _ (laidOut_addEntry net spec h entry)
    rw [append_assoc] at hstep
    have hmap : (validEntry net spec entry).toList ++ entries.filterMap (validEntry net spec) =
        (entry :: entries).filterMap (validEntry net spec) := by
      rw [filterMap_cons]
      cases validEntry net spec entry <;> rfl
    rw [hmap] at hstep
    exact hstep

/-- The layout of the finished targets and their order mixer. -/
theorem laidOut_newTargets (net : Netip) (spec : Spec) : LaidOut spec (validEntries net spec) (NewTargets net spec) ∧
    (1 < (NewTargets net spec).total → (NewTargets net spec).order =
    newMixer (Nat.size ((NewTargets net spec).total - 1)) spec.seed.toNat) := by
  have h := laidOut_foldl net spec spec.entries [] ⟨[], 0, spec.shuffle, Mixer.zero, 0, 0⟩
    ⟨rfl, Nat.zero_le _, ⟨[], [], rfl, .inl rfl, List.Forall₂.nil⟩, by simp⟩
  rw [nil_append] at h
  unfold NewTargets validEntries
  simp only
  split
  · exact ⟨⟨h.tiles, h.total_le, h.origin, h.sampled⟩, fun _ => rfl⟩
  · next hle => exact ⟨h, fun hlt => absurd hlt hle⟩

/-! ## Locating a position -/

variable {k : Nat}

section Locate

variable {spec : Spec} {valid : List (Prefix × List Nat)} {t : Targets}

/-- The range with a given index is the one of the valid entry with that index. -/
theorem LaidOut.entry_of_range (h : LaidOut spec valid t) (hk : t.ranges[k]? = some r) : ∃ e, valid[k]? = some e ∧ RangeOf spec e r := by
  obtain ⟨used, rest, rfl, -, hmatch⟩ := h.origin
  obtain ⟨hlen, hget⟩ := List.forall₂_iff_get.1 hmatch
  obtain ⟨hlt, rfl⟩ := List.getElem?_eq_some_iff.1 hk
  have hlt' : k < used.length := by omega
  refine ⟨used[k], ?_, hget k hlt' hlt⟩
  rw [getElem?_append_left hlt', getElem?_eq_getElem hlt']

/-- Below saturation every valid entry has its range. -/
theorem LaidOut.range_of_entry (h : LaidOut spec valid t) (hfull : t.total < maxTargetTotal) (hk : valid[k]? = some e) :
    ∃ r, t.ranges[k]? = some r ∧ RangeOf spec e r := by
  obtain ⟨used, rest, rfl, hrest, hmatch⟩ := h.origin
  have hempty : rest = [] := hrest.resolve_right (Nat.ne_of_lt hfull)
  subst hempty
  rw [append_nil] at hk
  obtain ⟨hlen, hget⟩ := List.forall₂_iff_get.1 hmatch
  obtain ⟨hlt, rfl⟩ := List.getElem?_eq_some_iff.1 hk
  exact ⟨t.ranges[k], getElem?_eq_getElem (by omega), hget k hlt (by omega)⟩

/-- What every valid entry provides: an aligned base and at least one port, none twice. -/
def EntryOk (e : Prefix × List Nat) : Prop := e.1.addr.toNat % 2 ^ e.1.hostBits = 0 ∧ 0 < e.2.length ∧ e.2.Nodup

theorem entryOk_validEntries (net : Netip) (spec : Spec) : ∀ e ∈ validEntries net spec, EntryOk e := by
  intro e he
  obtain ⟨entry, -, hentry⟩ := mem_filterMap.1 he
  exact validEntry_facts hentry

variable (hvalid : ∀ e ∈ valid, EntryOk e)
include hvalid

theorem LaidOut.rangeOk (h : LaidOut spec valid t) (hk : t.ranges[k]? = some r) : RangeOk r (r.hosts spec.limit) := by
  obtain ⟨e, hek, hr⟩ := h.entry_of_range hk
  obtain ⟨haligned, hports, hnodup⟩ := hvalid e (mem_of_getElem? hek)
  exact rangeOk_newRange spec haligned hports hnodup hr

/-- A position below the total lies in a range, at a host and a port of that range. -/
theorem LaidOut.locate_eq (h : LaidOut spec valid t) {g : Nat} (hg : g < t.total) :
    ∃ k r port, t.ranges[k]? = some r ∧ r.start ≤ g ∧ (g - r.start) / r.ports.length < r.hosts spec.limit ∧
    r.ports[(g - r.start) % r.ports.length]? = some port ∧ t.locate g = some (k, ⟨r.address ((g - r.start) / r.ports.length), port⟩) := by
  obtain ⟨k, r, c, hfind, hk, hlen, hle, hlt⟩ := findIdx_tile h.tiles (Nat.zero_le g) hg
  have hports := (h.rangeOk hvalid hk).ports_pos
  have hmod : (g - r.start) % r.ports.length < r.ports.length := Nat.mod_lt _ hports
  have hport := getElem?_eq_getElem hmod
  refine ⟨k, r, _, hk, hle, ?_, hport, ?_⟩
  · -- The length of the range is at most its hosts times its ports.
    have hcap : c ≤ r.hosts spec.limit * r.ports.length := by
      rw [hlen]
      exact Nat.min_le_left _ _
    rw [Nat.div_lt_iff_lt_mul hports]
    omega
  · unfold Targets.locate
    simp only [hfind, hk, hport]

/-- Different positions below the total have different targets or lie in different ranges. -/
theorem LaidOut.locate_inj (h : LaidOut spec valid t) {g g' : Nat} (hg : g < t.total)
    (hg' : g' < t.total) (heq : t.locate g = t.locate g') : g = g' := by
  obtain ⟨k, r, port, hk, hle, hhost, hport, hloc⟩ := h.locate_eq hvalid hg
  obtain ⟨k', r', port', hk', hle', hhost', hport', hloc'⟩ := h.locate_eq hvalid hg'
  rw [hloc, hloc', Option.some.injEq, Prod.mk.injEq, Target.mk.injEq] at heq
  obtain ⟨rfl, haddr, rfl⟩ := heq
  have hsame : r = r' := by
    rw [hk, Option.some.injEq] at hk'
    exact hk'
  subst hsame
  have hr := h.rangeOk hvalid hk
  -- The ports of a range differ, so the remainders agree; the addresses do, so the quotients agree.
  have hmod : (g - r.start) % r.ports.length = (g' - r.start) % r.ports.length := by
    apply (getElem?_inj (Nat.mod_lt _ hr.ports_pos) hr.ports_nodup).1
    rw [hport, hport']
  have hdiv := hr.address_inj hhost hhost' haddr
  have hdm := Nat.div_add_mod (g - r.start) r.ports.length
  have hdm' := Nat.div_add_mod (g' - r.start) r.ports.length
  rw [hdiv, hmod, hdm'] at hdm
  omega

/-- Without sampling and saturation every address and port of an entry has a position. -/
theorem LaidOut.locate_surj (h : LaidOut spec valid t) (hsampled : t.sampledEntries = 0)
    (hfull : t.total < maxTargetTotal) {p : Prefix} {ports : List Nat}
    (hk : valid[k]? = some (p, ports)) {a : Addr} (ha : p.Contains a) {port : Nat}
    (hport : port ∈ ports) : ∃ g, g < t.total ∧ t.locate g = some (k, ⟨a, port⟩) := by
  obtain ⟨r, hrk, hr⟩ := h.range_of_entry hfull hk
  have hok := h.rangeOk hvalid hrk
  have hbase : r.base = p.addr := by rw [hr]; rfl
  have hbits : r.hostBits = p.hostBits := by rw [hr]; rfl
  have hports : r.ports = ports := by rw [hr]; rfl
  obtain ⟨host, hhost, haddr⟩ := hok.address_surj (h.sampled hsampled r (mem_of_getElem? hrk))
    (a := a) (by rw [hbase]; exact ha.1) (by rw [hbase, hbits]; exact ha.2)
  obtain ⟨i, hi, hget⟩ := mem_iff_getElem.1 hport
  obtain ⟨c, hlen, hend, -, hfind⟩ := findIdx_of_offset h.tiles hrk
  -- The total is below the cap, so the length of the range is not cut.
  have hcap : c = r.hosts spec.limit * r.ports.length := by
    have hc : c = min (r.hosts spec.limit * r.ports.length) (maxTargetTotal - r.start) := hlen
    omega
  rw [← hports] at hi
  have hoffset : host * r.ports.length + i < c := by
    rw [hcap]
    calc host * r.ports.length + i < host * r.ports.length + r.ports.length := by omega
      _ = (host + 1) * r.ports.length := by rw [Nat.add_mul, Nat.one_mul]
      _ ≤ r.hosts spec.limit * r.ports.length := Nat.mul_le_mul_right _ hhost
  have hdiv : (host * r.ports.length + i) / r.ports.length = host := by
    rw [Nat.add_comm, Nat.add_mul_div_right _ _ hok.ports_pos, Nat.div_eq_of_lt hi, Nat.zero_add]
  have hmod : (host * r.ports.length + i) % r.ports.length = i := by
    rw [Nat.add_comm, Nat.add_mul_mod_self_right, Nat.mod_eq_of_lt hi]
  have hportAt : r.ports[i]? = some port := by
    rw [getElem?_eq_getElem hi, Option.some.injEq, ← hget]
    simp only [hports]
  refine ⟨r.start + (host * r.ports.length + i), by omega, ?_⟩
  unfold Targets.locate
  simp only [hfind _ hoffset, hrk, Nat.add_sub_cancel_left, hdiv, hmod, hportAt, haddr]

end Locate

/-! ## The shuffle -/

/-- The width of the order mixer: the positions fill more than half of its values. -/
theorem order_width {total : Nat} (h1 : 1 < total) (hmax : total ≤ maxTargetTotal) :
    0 < Nat.size (total - 1) ∧ Nat.size (total - 1) ≤ 64 ∧ total ≤ 2 ^ Nat.size (total - 1) := by
  have hlt : total - 1 < 2 ^ Nat.size (total - 1) := Nat.lt_size_self _
  refine ⟨Nat.size_pos.2 (by omega), ?_, by omega⟩
  apply Nat.size_le.2
  simp only [maxTargetTotal] at hmax
  omega

/-- The shuffled order is a permutation of the positions. -/
theorem permute_facts (net : Netip) (spec : Spec) : (∀ g, g < (NewTargets net spec).total →
    ∃ g', (NewTargets net spec).permute g = some g' ∧ g' < (NewTargets net spec).total) ∧
    (∀ g g', g < (NewTargets net spec).total → g' < (NewTargets net spec).total →
    (NewTargets net spec).permute g = (NewTargets net spec).permute g' → g = g') := by
  obtain ⟨hlaid, horder⟩ := laidOut_newTargets net spec
  generalize NewTargets net spec = t at *
  unfold Targets.permute
  rcases Nat.lt_or_ge 1 t.total with h1 | h1
  · have hsmall : ¬ t.total ≤ 1 := by omega
    obtain ⟨hpos, hw, htotal⟩ := order_width h1 hlaid.total_le
    have hperm := permBelow_mix hpos hw spec.seed.toNat
    have hmask : t.order.mask + 1 = 2 ^ Nat.size (t.total - 1) := by
      rw [horder h1]
      show bitMask _ + 1 = _
      rw [bitMask_eq hw]
      exact Nat.sub_add_cancel (Nat.two_pow_pos _)
    rw [← horder h1, ← hmask] at hperm
    rw [← hmask] at htotal
    simp only [hsmall, if_false]
    refine ⟨fun g hg => exists_walk hperm htotal hg, ?_⟩
    intro g g' hg hg' heq
    obtain ⟨y, hy, -⟩ := exists_walk hperm htotal hg
    exact walk_inj hperm htotal hg hg' hy (heq ▸ hy)
  · simp only [h1, if_true, Option.some.injEq]
    refine ⟨fun g hg => ⟨0, rfl, by omega⟩, ?_⟩
    intro g g' hg hg' _
    omega

/-- A position is looked up through a permutation `order` of the positions. -/
theorem at?_eq (net : Netip) (spec : Spec) : ∃ order, PermBelow (NewTargets net spec).total order ∧
    ∀ g, g < (NewTargets net spec).total → (NewTargets net spec).at? g = (NewTargets net spec).locate (order g) := by
  obtain ⟨hdefined, hinj⟩ := permute_facts net spec
  generalize NewTargets net spec = t at *
  unfold Targets.at?
  cases t.shuffle with
  | false => exact ⟨id, ⟨fun hx => hx, fun _ _ h => h⟩, fun _ _ => rfl⟩
  | true =>
    refine ⟨fun g => (t.permute g).getD 0, ⟨?_, ?_⟩, ?_⟩
    · intro g hg
      obtain ⟨g', hg', hlt⟩ := hdefined g hg
      rw [hg']
      exact hlt
    · intro g g' hg hg' heq
      obtain ⟨y, hy, -⟩ := hdefined g hg
      obtain ⟨y', hy', -⟩ := hdefined g' hg'
      rw [hy, hy'] at heq
      have heq' : y = y' := heq
      exact hinj g g' hg hg' (by rw [hy, hy', heq'])
    · intro g hg
      obtain ⟨y, hy, -⟩ := hdefined g hg
      simp [hy]

/-- Scan target enumeration is exact. Every position below the total has a target, whose address is
in the prefix and whose port is in the ports of the valid entry of its range; two positions never
share range, address and port; and if no entry is sampled and the positions did not run out, every
address and port of an entry has exactly one position. -/
theorem targets_exact (net : Netip) (spec : Spec) : (∀ g, g < (NewTargets net spec).total → ∃ k p ports target,
    (NewTargets net spec).at? g = some (k, target) ∧ (NewTargets net spec).At g = some target ∧
    (validEntries net spec)[k]? = some (p, ports) ∧ p.Contains target.addr ∧ target.port ∈ ports) ∧
    (∀ g g', g < (NewTargets net spec).total → g' < (NewTargets net spec).total →
    (NewTargets net spec).at? g = (NewTargets net spec).at? g' → g = g') ∧
    ((NewTargets net spec).sampledEntries = 0 → (NewTargets net spec).total < maxTargetTotal →
    ∀ k p ports, (validEntries net spec)[k]? = some (p, ports) → ∀ a port, p.Contains a → port ∈ ports →
    ∃! g, g < (NewTargets net spec).total ∧ (NewTargets net spec).at? g = some (k, ⟨a, port⟩)) := by
  obtain ⟨hlaid, -⟩ := laidOut_newTargets net spec
  have hvalid := entryOk_validEntries net spec
  obtain ⟨order, hperm, hat⟩ := at?_eq net spec
  have hinj : ∀ g g', g < (NewTargets net spec).total → g' < (NewTargets net spec).total →
      (NewTargets net spec).at? g = (NewTargets net spec).at? g' → g = g' := by
    intro g g' hg hg' heq
    rw [hat g hg, hat g' hg'] at heq
    exact hperm.inj hg hg' (hlaid.locate_inj hvalid (hperm.lt hg) (hperm.lt hg') heq)
  refine ⟨?_, hinj, ?_⟩
  · intro g hg
    obtain ⟨k, r, port, hk, -, hhost, hport, hloc⟩ := hlaid.locate_eq hvalid (hperm.lt hg)
    obtain ⟨⟨p, ports⟩, hek, hr⟩ := hlaid.entry_of_range hk
    have hok := hlaid.rangeOk hvalid hk
    obtain ⟨hfam, hval⟩ := hok.address_toNat hhost
    have hbits := (aligned_add_lt r.base.toNat_lt hok.hostBits_le hok.aligned (hok.offset_lt hhost)).2
    rw [← hval] at hbits
    rw [← hat g hg] at hloc
    have hbase : r.base = p.addr := by rw [hr]; rfl
    have hwidth : r.hostBits = p.hostBits := by rw [hr]; rfl
    have hports : r.ports = ports := by rw [hr]; rfl
    rw [hbase, hwidth] at hbits
    rw [hbase] at hfam
    refine ⟨k, p, ports, _, hloc, ?_, hek, ⟨hfam, hbits⟩, ?_⟩
    · unfold Targets.At
      rw [hloc]
      rfl
    · rw [← hports]
      exact mem_of_getElem? hport
  · intro hsampled hfull k p ports hk a port ha hport
    obtain ⟨y, hy, hloc⟩ := hlaid.locate_surj hvalid hsampled hfull hk ha hport
    obtain ⟨g, hg, rfl⟩ := hperm.surj hy
    rw [← hat g hg] at hloc
    refine ⟨g, ⟨hg, hloc⟩, ?_⟩
    rintro g' ⟨hg', hloc'⟩
    exact hinj g' g hg' hg (hloc'.trans hloc.symm)

/-- The prefix `10.0.0.0/30`. -/
def smallPrefix : Prefix := ⟨.v4 (BitVec.ofNat 32 0x0a000000), 30, by decide⟩

/-- A parser that knows one text. -/
def smallNet : Netip where
  parseAddr _ := none
  parsePrefix text := if text = "10.0.0.0/30" then some smallPrefix else none

/-- One entry of four addresses with two ports. -/
def smallSpec : Spec where
  entries := [⟨"10.0.0.0/30", 0⟩]
  defaultPorts := [80, 443]
  portMode := ""
  maxHostsPerEntry := 0
  shuffle := true
  seed := 7

theorem targets_exact_small : (NewTargets smallNet smallSpec).total = 8 ∧ (NewTargets smallNet smallSpec).sampledEntries = 0 ∧
    ∃! g, g < 8 ∧ (NewTargets smallNet smallSpec).at? g = some (0, ⟨.v4 (BitVec.ofNat 32 0x0a000003), 443⟩) := by
  have htotal : (NewTargets smallNet smallSpec).total = 8 := by decide
  have hsampled : (NewTargets smallNet smallSpec).sampledEntries = 0 := by decide
  refine ⟨htotal, hsampled, ?_⟩
  have h := (targets_exact smallNet smallSpec).2.2 hsampled (by rw [htotal]; decide) 0 smallPrefix
    [80, 443] (by decide) (.v4 (BitVec.ofNat 32 0x0a000003)) 443 ⟨rfl, by decide⟩
    (by decide)
  rwa [htotal] at h

end Throne.Core.Scan
