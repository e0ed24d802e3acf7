import Throne.Engine.Services.SettingsRegistry
import Mathlib.Data.List.Pairwise

/-!
# What a settings request does

Each key owns the members that it writes, and no member is owned twice (`keys_disjoint`). The invariant
of the pending writes (`Sound`) says that a write carries the key that owns its member and that a key
reads differently exactly when one of its members does, so the keys that `commit` reports are the
keys that read differently. The rules across keys are then statements about the stored settings and
the pending ones.
-/

namespace Throne.Engine.Services

open Lib Lib.PendingWrites List

/-! ## Members and their owners -/

inductive Member where
  | bool (member : BoolMember)
  | int (member : IntMember)
  | string (member : StringMember)
deriving DecidableEq

/-- Two settings differ in a member. -/
def Differ (s t : Settings) : Member → Prop
  | .bool member => t.bools member ≠ s.bools member
  | .int member => t.ints member ≠ s.ints member
  | .string member => t.strings member ≠ s.strings member

instance (s t : Settings) (member : Member) : Decidable (Differ s t member) :=
  match member with
  | .bool member => inferInstanceAs (Decidable (t.bools member ≠ s.bools member))
  | .int member => inferInstanceAs (Decidable (t.ints member ≠ s.ints member))
  | .string member => inferInstanceAs (Decidable (t.strings member ≠ s.strings member))

/-- The members that a key writes. -/
def Kind.owned : Kind → List Member
  | .bool member _ => [.bool member]
  | .int member _ _ | .autoUpdate member _ | .portOrOff member => [.int member]
  | .inboundPort _ _ => [.int .inboundSocksPort, .bool .randomInboundPort]
  | .string member _ _ => [.string member]

/-- The names of the keys with the members that they own. -/
def owners (linux : Bool) : List (String × List Member) :=
  [("remember_enable", [.bool .rememberEnable]), ("log_level", [.string .logLevel]),
    ("xray_log_level", [.string .xrayLogLevel]), ("inbound_enabled", [.bool .disableMixedInbound]),
    ("inbound_address", [.string .inboundAddress]),
    ("inbound_port", [.int .inboundSocksPort, .bool .randomInboundPort]),
    ("test_url", [.string .testLatencyUrl]), ("test_concurrency", [.int .testConcurrent]),
    ("test_timeout_ms", [.int .urlTestTimeoutMs]), ("sub_auto_update", [.int .subAutoUpdate]),
    ("sub_respect_server_interval", [.bool .subRespectServerInterval]),
    ("route_auto_update", [.int .routeAutoUpdate]), ("kill_switch", [.bool .killSwitch]),
    ("tun_strict_route", [.bool .vpnStrictRoute])] ++
  (if linux then [("tun_auto_redirect", [.bool .vpnAutoRedirect])] else []) ++
  [("tun_mtu", [.int .vpnMtu]), ("tun_ipv6", [.bool .vpnIpv6]),
    ("tun_ipv4_cidr", [.string .vpnTunIpv4Cidr]), ("tun_ipv6_cidr", [.string .vpnTunIpv6Cidr]),
    ("dns_in_port", [.int .coreDnsInPort]), ("dns_in_lan", [.bool .coreDnsInLan]),
    ("clash_api_port", [.int .coreBoxClashApi]),
    ("clash_listen_addr", [.string .coreBoxClashListenAddr]),
    ("singbox_api_port", [.int .coreBoxApiPort]), ("remote_dns", [.string .remoteDns]),
    ("direct_dns", [.string .directDns]), ("ntp_enabled", [.bool .enableNtp]),
    ("ntp_server", [.string .ntpServerAddress]), ("ntp_interval", [.string .ntpInterval])]

theorem keys_owners (syntaxes : Syntaxes) (linux : Bool) : (keys syntaxes linux).map (fun key => (key.name, key.kind.owned)) = owners linux := by
  cases linux <;> rfl

theorem owners_disjoint : ∀ linux, (owners linux).Pairwise fun a b =>
  a.1 ≠ b.1 ∧ ∀ member ∈ a.2, member ∉ b.2 := by
  decide

variable {syntaxes : Syntaxes} {linux : Bool}

/-- Two keys with different names and members. -/
def Apart (a b : Key) : Prop := a.name ≠ b.name ∧ ∀ member ∈ a.kind.owned, member ∉ b.kind.owned

instance : Std.Symm Apart where
  symm := fun _ _ ⟨hname, hmembers⟩ =>
    ⟨hname.symm, fun member hb ha => hmembers member ha hb⟩

variable {key : Key} {other : Key}

theorem keys_disjoint (hkey : key ∈ keys syntaxes linux) (hother : other ∈ keys syntaxes linux) (hne : key ≠ other) : Apart key other := by
  have hpairwise := owners_disjoint linux
  rw [← keys_owners syntaxes linux, pairwise_map] at hpairwise
  have hapart : (keys syntaxes linux).Pairwise Apart := hpairwise
  exact hapart.forall hkey hother hne

theorem key_of_name (hkey : key ∈ keys syntaxes linux) (hother : other ∈ keys syntaxes linux) (hname : key.name = other.name) : key = other := by
  by_contra hne
  exact (keys_disjoint hkey hother hne).1 hname

variable {member : Member}

theorem key_of_owned (hkey : key ∈ keys syntaxes linux) (hother : other ∈ keys syntaxes linux) (hmem : member ∈ key.kind.owned)
    (hmem' : member ∈ other.kind.owned) : key = other := by
  by_contra hne
  exact (keys_disjoint hkey hother hne).2 member hmem hmem'

variable {s t : Settings}

/-- A key reads nothing but its own members. -/
theorem get_congr (kind : Kind) (h : ∀ member ∈ kind.owned, ¬Differ s t member) : kind.get t = kind.get s := by
  cases kind with
  | bool member inverted =>
    have := not_not.1 (h (.bool member) (mem_singleton_self _))
    rw [Kind.get, Kind.get, this]
  | int member min max | autoUpdate member fallback | portOrOff member =>
    have := not_not.1 (h (.int member) (mem_singleton_self _))
    rw [Kind.get, Kind.get, this]
  | inboundPort min max =>
    have := not_not.1 (h (.int .inboundSocksPort) mem_cons_self)
    rw [Kind.get, Kind.get, this]
  | string member valid rule =>
    have := not_not.1 (h (.string member) (mem_singleton_self _))
    rw [Kind.get, Kind.get, this]

/-- For these keys the stored value and the value read determine each other. -/
def Kind.plain : Kind → Bool
  | .bool _ _ | .int _ _ _ | .string _ _ _ => true
  | .inboundPort _ _ | .autoUpdate _ _ | .portOrOff _ => false

theorem get_ne_of_differ {kind : Kind} (hplain : kind.plain = true) (hmem : member ∈ kind.owned)
    (h : Differ s t member) : kind.get t ≠ kind.get s := by
  intro heq
  cases kind with
  | bool m inverted =>
    rw [mem_singleton.1 hmem] at h
    have hvalue : (t.bools m != inverted) = (s.bools m != inverted) := JsonValue.bool.inj heq
    cases inverted with
    | false | true => exact h (by simpa using hvalue)
  | int m min max =>
    rw [mem_singleton.1 hmem] at h
    have hvalue := JsonValue.number.inj heq
    exact h (Rat.intCast_injective hvalue)
  | string m valid rule =>
    rw [mem_singleton.1 hmem] at h
    exact h (JsonValue.string.inj heq)
  | inboundPort | autoUpdate | portOrOff => cases hplain

/-! ## Pending writes -/

/-- The keys and members of all writes. -/
def Patch.writes (p : Patch) : List (String × Member) :=
  p.bools.map (fun write => (write.key, .bool write.member)) ++ p.ints.map (fun write => (write.key, .int write.member)) ++
    p.strings.map fun write => (write.key, .string write.member)

structure DistinctWrites (p : Patch) : Prop where
  bools : Distinct p.bools
  ints : Distinct p.ints
  strings : Distinct p.strings

/-- What one member write of the key `name` changes. -/
structure WritesMember (s : Settings) (p q : Patch) (name : String) (member : Member) : Prop where
  distinct : DistinctWrites p → DistinctWrites q
  writes : ∀ x ∈ q.writes, x ∈ p.writes ∨ x = (name, member)
  keys : ∀ key, key ∈ q.keys ↔ key ∈ p.keys ∨ key = name
  frame : ∀ other, Differ (p.overlay s) (q.overlay s) other → other = member

theorem mem_touched (p : Patch) (name key : String) : key ∈ p.touched name ↔ key ∈ p.keys ∨ key = name := by
  rw [Patch.touched]
  split
  next hmem =>
    rw [contains_iff_mem] at hmem
    constructor
    · exact .inl
    · rintro (h | rfl)
      · exact h
      · exact hmem
  next => rw [mem_append, mem_singleton]

theorem setBool_writes (s : Settings) (p : Patch) (name : String) (member : BoolMember)
    (v : Bool) : WritesMember s p (p.setBool name member v) name (.bool member) where
  distinct := fun h => ⟨distinct_set h.bools name member v, h.ints, h.strings⟩
  writes := by
    intro x hx
    simp only [Patch.writes, Patch.setBool, mem_append, mem_map] at hx ⊢
    rcases hx with (⟨write, hwrite, rfl⟩ | hx) | hx
    · rcases mem_set.1 hwrite with ⟨hold, -⟩ | rfl
      · exact .inl (.inl (.inl ⟨write, hold, rfl⟩))
      · exact .inr rfl
    · exact .inl (.inl (.inr hx))
    · exact .inl (.inr hx)
  keys := mem_touched p name
  frame := by
    intro other hdiffer
    cases other with
    | bool m =>
      by_contra hne
      exact hdiffer (value_set_other fun heq => hne (by rw [heq]))
    | int m | string m => exact absurd rfl hdiffer

theorem setInt_writes (s : Settings) (p : Patch) (name : String) (member : IntMember) (v : Int) :
    WritesMember s p (p.setInt name member v) name (.int member) where
  distinct := fun h => ⟨h.bools, distinct_set h.ints name member v, h.strings⟩
  writes := by
    intro x hx
    simp only [Patch.writes, Patch.setInt, mem_append, mem_map] at hx ⊢
    rcases hx with (hx | ⟨write, hwrite, rfl⟩) | hx
    · exact .inl (.inl (.inl hx))
    · rcases mem_set.1 hwrite with ⟨hold, -⟩ | rfl
      · exact .inl (.inl (.inr ⟨write, hold, rfl⟩))
      · exact .inr rfl
    · exact .inl (.inr hx)
  keys := mem_touched p name
  frame := by
    intro other hdiffer
    cases other with
    | int m =>
      by_contra hne
      exact hdiffer (value_set_other fun heq => hne (by rw [heq]))
    | bool m | string m => exact absurd rfl hdiffer

theorem setString_writes (s : Settings) (p : Patch) (name : String) (member : StringMember)
    (v : String) : WritesMember s p (p.setString name member v) name (.string member) where
  distinct := fun h => ⟨h.bools, h.ints, distinct_set h.strings name member v⟩
  writes := by
    intro x hx
    simp only [Patch.writes, Patch.setString, mem_append, mem_map] at hx ⊢
    rcases hx with hx | ⟨write, hwrite, rfl⟩
    · exact .inl (.inl hx)
    · rcases mem_set.1 hwrite with ⟨hold, -⟩ | rfl
      · exact .inl (.inr ⟨write, hold, rfl⟩)
      · exact .inr rfl
  keys := mem_touched p name
  frame := by
    intro other hdiffer
    cases other with
    | string m =>
      by_contra hne
      exact hdiffer (value_set_other fun heq => hne (by rw [heq]))
    | bool m | int m => exact absurd rfl hdiffer

/-! ## The invariant -/

/-- A key reads differently in `t` exactly when one of its members differs. -/
def Agrees (s t : Settings) (key : Key) : Prop := (∃ member ∈ key.kind.owned, Differ s t member) ↔ key.get t ≠ key.get s

theorem agrees_plain (h : key.kind.plain = true) : Agrees s t key := by
  constructor
  · rintro ⟨member, hmem, hdiffer⟩
    exact get_ne_of_differ h hmem hdiffer
  · intro hne
    by_contra hnone
    exact hne (get_congr key.kind fun member hmem hdiffer => hnone ⟨member, hmem, hdiffer⟩)

theorem agrees_of_ne (h : key.get t ≠ key.get s) : Agrees s t key := by
  refine ⟨fun _ => h, fun _ => ?_⟩
  by_contra hnone
  exact h (get_congr key.kind fun member hmem hdiffer => hnone ⟨member, hmem, hdiffer⟩)

theorem Differ.symm (h : Differ s t member) : Differ t s member := by
  cases member <;> exact Ne.symm h

theorem not_differ_trans {u : Settings} (h : ¬Differ s t member) (h' : ¬Differ t u member) : ¬Differ s u member := by
  cases member <;> exact not_not.2 ((not_not.1 h').trans (not_not.1 h))

/-- The writes of a request so far. -/
structure Sound (syntaxes : Syntaxes) (linux : Bool) (s : Settings) (p : Patch) : Prop where
  distinct : DistinctWrites p
  owned : ∀ x ∈ p.writes, ∃ key ∈ keys syntaxes linux, key.name = x.1 ∧ x.2 ∈ key.kind.owned
  recorded : ∀ x ∈ p.writes, x.1 ∈ p.keys
  agrees : ∀ key ∈ keys syntaxes linux, Agrees s (p.overlay s) key

theorem sound_empty (s : Settings) : Sound syntaxes linux s Patch.empty where
  distinct := ⟨nodup_nil, nodup_nil, nodup_nil⟩
  owned := forall_mem_nil _
  recorded := forall_mem_nil _
  agrees := fun key _ =>
    ⟨fun ⟨member, _, hdiffer⟩ => by cases member <;> exact absurd rfl hdiffer, fun hne => absurd rfl hne⟩

/-- What the writes of one key change. -/
structure WritesKey (s : Settings) (p q : Patch) (key : Key) : Prop where
  distinct : DistinctWrites p → DistinctWrites q
  writes : ∀ x ∈ q.writes, x ∈ p.writes ∨ x.1 = key.name ∧ x.2 ∈ key.kind.owned
  keys : ∀ name, name ∈ q.keys ↔ name ∈ p.keys ∨ name = key.name
  frame : ∀ other, Differ (p.overlay s) (q.overlay s) other → other ∈ key.kind.owned

variable {p : Patch} {q : Patch}

theorem WritesMember.toKey (h : WritesMember s p q key.name member) (hmem : member ∈ key.kind.owned) : WritesKey s p q key where
  distinct := h.distinct
  writes := by
    intro x hx
    refine (h.writes x hx).imp_right ?_
    rintro rfl
    exact ⟨rfl, hmem⟩
  keys := h.keys
  frame := by
    intro other hdiffer
    rw [h.frame other hdiffer]
    exact hmem

theorem WritesKey.trans {r : Patch} (h : WritesKey s p q key) (h' : WritesKey s q r key) : WritesKey s p r key where
  distinct := fun hp => h'.distinct (h.distinct hp)
  writes := by
    intro x hx
    rcases h'.writes x hx with hx | hx
    · exact h.writes x hx
    · exact .inr hx
  keys := by
    intro name
    rw [h'.keys, h.keys, or_assoc, or_self]
  frame := by
    intro other hdiffer
    by_contra hnone
    exact not_differ_trans (fun hd => hnone (h.frame other hd)) (fun hd => hnone (h'.frame other hd)) hdiffer

/-- The writes of one key keep the invariant if the key still agrees. -/
theorem Sound.write (hp : Sound syntaxes linux s p) (hkey : key ∈ keys syntaxes linux)
    (h : WritesKey s p q key) (hagrees : Agrees s (q.overlay s) key) : Sound syntaxes linux s q where
  distinct := h.distinct hp.distinct
  owned := by
    intro x hx
    rcases h.writes x hx with hold | ⟨hname, hmem⟩
    · exact hp.owned x hold
    · exact ⟨key, hkey, hname.symm, hmem⟩
  recorded := by
    intro x hx
    rw [h.keys]
    rcases h.writes x hx with hold | ⟨hname, -⟩
    · exact .inl (hp.recorded x hold)
    · exact .inr hname
  agrees := by
    intro other hother
    rcases Decidable.em (other.name = key.name) with hname | hname
    · rw [key_of_name hother hkey hname]
      exact hagrees
    · have hsame : ∀ member ∈ other.kind.owned, ¬Differ (p.overlay s) (q.overlay s) member := by
        intro member hmem hdiffer
        have heq := key_of_owned hother hkey hmem (h.frame member hdiffer)
        exact hname (congrArg Key.name heq)
      have hget : other.get (q.overlay s) = other.get (p.overlay s) := get_congr other.kind hsame
      have hold : (∃ member ∈ other.kind.owned, Differ s (p.overlay s) member) ↔ other.get (p.overlay s) ≠ other.get s := hp.agrees other hother
      rw [Agrees, hget, ← hold]
      refine exists_congr fun member => and_congr_right fun hmem => ?_
      constructor
      · intro hdiffer
        by_contra hnone
        exact not_differ_trans hnone (hsame member hmem) hdiffer
      · intro hdiffer
        by_contra hnone
        exact not_differ_trans hnone (fun hd => hsame member hmem hd.symm) hdiffer

theorem set_writes (s : Settings) (p : Patch) (key : Key) (v : JsonValue) : WritesKey s p (key.set s v p) key := by
  obtain ⟨name, restart, effects, kind⟩ := key
  cases kind with
  | bool member inverted => exact (setBool_writes s p name member _).toKey mem_cons_self
  | int member min max | autoUpdate member fallback | portOrOff member =>
    exact (setInt_writes s p name member _).toKey mem_cons_self
  | string member valid rule => exact (setString_writes s p name member _).toKey mem_cons_self
  | inboundPort min max =>
    have hport : WritesKey s p (p.setInt name .inboundSocksPort v.toInt) ⟨name, restart, effects, .inboundPort min max⟩ :=
      (setInt_writes s p name .inboundSocksPort v.toInt).toKey mem_cons_self
    have hrandom := setBool_writes s (p.setInt name .inboundSocksPort v.toInt) name .randomInboundPort false
    exact hport.trans (hrandom.toKey (mem_cons_of_mem _ (mem_singleton_self _)))

/-! ## The keys of one request -/

theorem append_ne_empty {a : String} (h : a ≠ "") (b : String) : a ++ b ≠ "" :=
  fun heq => h (String.append_eq_empty_iff.1 heq).1

variable {v : JsonValue}

theorem wholeNumber_some {n : Int} (h : Kind.wholeNumber v = some n) : v = .number (n : ℚ) ∧ v.toInt = n := by
  cases v with
  | number x =>
    rw [Kind.wholeNumber] at h
    obtain ⟨⟨hden, -⟩, hnum⟩ := Option.ite_none_right_eq_some.1 h
    have hnum := Option.some.inj hnum
    refine ⟨?_, ?_⟩
    · rw [← hnum, Rat.coe_int_num_of_den_eq_one hden]
    · rw [JsonValue.toInt, hden, ← hnum]
      exact Int.tdiv_one _
  | null | bool b | string t | other => exact absurd h (Option.some_ne_none n).symm

variable {name : String}

theorem integerProblem_none {min max : Int} (h : Kind.integerProblem name v min max = "") : ∃ n, Kind.wholeNumber v = some n := by
  rw [Kind.integerProblem] at h
  split at h
  next =>
    refine absurd h ?_
    repeat apply append_ne_empty
    decide
  next n hn => exact ⟨n, hn⟩

/-- Minutes that pass the check read back as they were sent. -/
theorem autoUpdate_get {member : IntMember} {fallback : Nat}
    (h : Kind.check name v (.autoUpdate member fallback) = "") : (Kind.autoUpdate member fallback).get
    ((Kind.set s name v p (.autoUpdate member fallback)).overlay s) = v := by
  rw [Kind.check] at h
  split at h
  next =>
    refine absurd h ?_
    repeat apply append_ne_empty
    decide
  next n hn =>
    obtain ⟨hv, hint⟩ := wholeNumber_some hn
    have hstored : ((Kind.set s name v p (.autoUpdate member fallback)).overlay s).ints member = if v.toInt ≠ 0 then v.toInt
        else Kind.autoUpdateOff ((p.overlay s).ints member) fallback :=
      value_set_self name member _
    rw [Kind.get, hstored, hint]
    split at h
    next =>
      refine absurd h ?_
      repeat apply append_ne_empty
      decide
    next hrange =>
      rcases Decidable.em (n = 0) with hzero | hsome
      · have hoff : ¬kMinAutoUpdate ≤ Kind.autoUpdateOff ((p.overlay s).ints member) fallback := by
          rw [Kind.autoUpdateOff, kMinAutoUpdate]
          split
          · omega
          · split <;> omega
        rw [if_neg (not_not.2 hzero), if_neg hoff, hv, hzero]
        rfl
      · have hlarge : kMinAutoUpdate ≤ n := by
          rw [not_and, not_or] at hrange
          exact Int.not_lt.1 (hrange hsome).1
        rw [if_pos hsome, if_pos hlarge, hv]

/-- A port that passes the check reads back as it was sent. -/
theorem portOrOff_get {member : IntMember} (h : Kind.check name v (.portOrOff member) = "") :
    (Kind.portOrOff member).get ((Kind.set s name v p (.portOrOff member)).overlay s) = v := by
  rw [Kind.check] at h
  split at h
  next =>
    refine absurd h ?_
    repeat apply append_ne_empty
    decide
  next n hn =>
    obtain ⟨hv, hint⟩ := wholeNumber_some hn
    have hstored : ((Kind.set s name v p (.portOrOff member)).overlay s).ints member = if v.toInt ≠ 0 then v.toInt
        else if 0 < (p.overlay s).ints member then -(p.overlay s).ints member
        else (p.overlay s).ints member :=
      value_set_self name member _
    rw [Kind.get, hstored, hint]
    split at h
    next =>
      refine absurd h ?_
      repeat apply append_ne_empty
      decide
    next hrange =>
      rcases Decidable.em (n = 0) with hzero | hsome
      · have hoff : ¬0 < (if 0 < (p.overlay s).ints member then -(p.overlay s).ints member
            else (p.overlay s).ints member) := by
          split <;> omega
        rw [if_neg (not_not.2 hzero), if_neg hoff, hv, hzero]
        rfl
      · have hpositive : 0 < n := by omega
        rw [if_pos hsome, if_pos hpositive, hv]

/-- After a key was set to a checked value that differs from the stored one, it agrees. -/
theorem set_agrees (hcheck : key.check v = "") (hne : v ≠ key.get s) : Agrees s ((key.set s v p).overlay s) key := by
  obtain ⟨name, restart, effects, kind⟩ := key
  cases kind with
  | bool | int | string => exact agrees_plain rfl
  | autoUpdate member fallback =>
    refine agrees_of_ne ?_
    have hget := autoUpdate_get (s := s) (p := p) hcheck
    exact fun heq => hne (hget.symm.trans heq)
  | portOrOff member =>
    refine agrees_of_ne ?_
    have hget := portOrOff_get (s := s) (p := p) hcheck
    exact fun heq => hne (hget.symm.trans heq)
  | inboundPort min max =>
    refine agrees_of_ne ?_
    obtain ⟨n, hn⟩ := integerProblem_none hcheck
    obtain ⟨hv, hint⟩ := wholeNumber_some hn
    have hstored : ((Kind.set s name v p (.inboundPort min max)).overlay s).ints .inboundSocksPort = v.toInt := by
      have hset : value s.ints (PendingWrites.set p.ints name IntMember.inboundSocksPort v.toInt)
          IntMember.inboundSocksPort = v.toInt := value_set_self name _ v.toInt
      exact hset
    have hget : (Kind.inboundPort min max).get ((Kind.set s name v p (.inboundPort min max)).overlay s) = v := by
      rw [Kind.get, hstored, hint]
      exact hv.symm
    exact fun heq => hne (hget.symm.trans heq)

theorem findKey_some (h : findKey syntaxes linux name = some key) : key ∈ keys syntaxes linux ∧ key.name = name := by
  rw [findKey] at h
  have hname := find?_some h
  exact ⟨mem_of_find?_eq_some h, of_decide_eq_true hname⟩

/-- The loop over the request keeps the invariant. -/
theorem collect_sound {request : List (String × JsonValue)}
    (hp : Sound syntaxes linux s p) (h : collect syntaxes linux s request p = .ok q) : Sound syntaxes linux s q := by
  induction request generalizing p with
  | nil =>
    rw [collect] at h
    rw [← Except.ok.inj h]
    exact hp
  | cons entry rest ih =>
    obtain ⟨name, v⟩ := entry
    rw [collect] at h
    split at h
    next => cases h
    next key hkey =>
      obtain ⟨hmem, -⟩ := findKey_some hkey
      split at h
      next => exact ih hp h
      next hchanged =>
        split at h
        next => cases h
        next hcheck =>
          rw [not_or] at hchanged
          exact ih (hp.write hmem (set_writes s p key v) (set_agrees (not_not.1 hcheck) hchanged.2)) h

theorem fillNtpInterval_sound (hp : Sound syntaxes linux s p) : Sound syntaxes linux s (fillNtpInterval s p) := by
  rw [fillNtpInterval]
  split
  next =>
    obtain ⟨key, hmem, hname, rule, hkind⟩ : ∃ key ∈ keys syntaxes linux,
        key.name = "ntp_interval" ∧ ∃ rule, key.kind = .string .ntpInterval syntaxes.duration rule :=
      ⟨_, mem_append_right _ (mem_of_getLast? rfl), rfl, _, rfl⟩
    have hwrites := setString_writes s p "ntp_interval" .ntpInterval "30m"
    rw [← hname] at hwrites ⊢
    refine hp.write hmem (hwrites.toKey ?_) (agrees_plain ?_)
    · rw [hkind]
      exact mem_singleton_self _
    · rw [hkind]
      rfl
  next => exact hp

/-! ## What is committed -/

/-- The keys of the writes that differ. -/
theorem commit_spec (hp : DistinctWrites p) : (p.commit s).1 = p.overlay s ∧ ∀ name, name ∈ (p.commit s).2 ↔ name ∈ p.keys ∧
    ((∃ write ∈ p.bools, write.key = name ∧ s.bools write.member ≠ write.value) ∨
    (∃ write ∈ p.ints, write.key = name ∧ s.ints write.member ≠ write.value) ∨
    ∃ write ∈ p.strings, write.key = name ∧ s.strings write.member ≠ write.value) := by
  rw [Patch.commit, commit_eq hp.bools, commit_eq hp.ints, commit_eq hp.strings]
  refine ⟨rfl, fun name => ?_⟩
  simp only [mem_filter, contains_iff_mem, mem_append, mem_map, decide_eq_true_eq, or_assoc, and_congr_right_iff]
  intro _
  have hcomm : ∀ {a b c : Prop}, (a ∧ b) ∧ c ↔ a ∧ c ∧ b := by
    intro a b c
    rw [and_assoc, and_comm (a := b)]
  simp only [hcomm]

/-- A key is reported exactly when it reads differently afterwards. -/
theorem reported_iff (hp : Sound syntaxes linux s p) (hkey : key ∈ keys syntaxes linux) :
    key.name ∈ (p.commit s).2 ↔ key.get (p.overlay s) ≠ key.get s := by
  have hagrees : (∃ member ∈ key.kind.owned, Differ s (p.overlay s) member) ↔ key.get (p.overlay s) ≠ key.get s := hp.agrees key hkey
  rw [(commit_spec hp.distinct).2, ← hagrees]
  have howner : ∀ {x : String × Member}, x ∈ p.writes → x.1 = key.name → x.2 ∈ key.kind.owned := by
    intro x hx hname
    obtain ⟨other, hother, hsame, hmem⟩ := hp.owned x hx
    rw [← key_of_name hother hkey (hsame.trans hname)]
    exact hmem
  have hname : ∀ {x : String × Member}, x ∈ p.writes → x.2 ∈ key.kind.owned → x.1 = key.name ∧ x.1 ∈ p.keys := by
    intro x hx hmem
    obtain ⟨other, hother, hsame, hmem'⟩ := hp.owned x hx
    refine ⟨?_, hp.recorded x hx⟩
    rw [← hsame, key_of_owned hother hkey hmem' hmem]
  have hwrites : ∀ x, x ∈ p.writes ↔ (∃ write ∈ p.bools, (write.key, Member.bool write.member) = x) ∨
        (∃ write ∈ p.ints, (write.key, Member.int write.member) = x) ∨
        ∃ write ∈ p.strings, (write.key, Member.string write.member) = x := by
    intro x
    rw [Patch.writes, mem_append, mem_append, mem_map, mem_map, mem_map, or_assoc]
  constructor
  · rintro ⟨-, ⟨write, hwrite, hkeyed, hdiffer⟩ | ⟨write, hwrite, hkeyed, hdiffer⟩ | ⟨write, hwrite, hkeyed, hdiffer⟩⟩
    · refine ⟨.bool write.member, howner ((hwrites _).2 (.inl ⟨write, hwrite, rfl⟩)) hkeyed, ?_⟩
      show value s.bools p.bools write.member ≠ s.bools write.member
      rw [value_of_mem hp.distinct.bools hwrite]
      exact Ne.symm hdiffer
    · refine ⟨.int write.member, howner ((hwrites _).2 (.inr (.inl ⟨write, hwrite, rfl⟩))) hkeyed, ?_⟩
      show value s.ints p.ints write.member ≠ s.ints write.member
      rw [value_of_mem hp.distinct.ints hwrite]
      exact Ne.symm hdiffer
    · refine ⟨.string write.member, howner ((hwrites _).2 (.inr (.inr ⟨write, hwrite, rfl⟩))) hkeyed, ?_⟩
      show value s.strings p.strings write.member ≠ s.strings write.member
      rw [value_of_mem hp.distinct.strings hwrite]
      exact Ne.symm hdiffer
  · rintro ⟨member, hmem, hdiffer⟩
    cases member with
    | bool m =>
      obtain ⟨write, hwrite, rfl, hvalue⟩ := exists_write hdiffer
      obtain ⟨hkeyed, hin⟩ := hname ((hwrites _).2 (.inl ⟨write, hwrite, rfl⟩)) hmem
      refine ⟨hkeyed ▸ hin, .inl ⟨write, hwrite, hkeyed, ?_⟩⟩
      rw [hvalue]
      exact Ne.symm hdiffer
    | int m =>
      obtain ⟨write, hwrite, rfl, hvalue⟩ := exists_write hdiffer
      obtain ⟨hkeyed, hin⟩ := hname ((hwrites _).2 (.inr (.inl ⟨write, hwrite, rfl⟩))) hmem
      refine ⟨hkeyed ▸ hin, .inr (.inl ⟨write, hwrite, hkeyed, ?_⟩)⟩
      rw [hvalue]
      exact Ne.symm hdiffer
    | string m =>
      obtain ⟨write, hwrite, rfl, hvalue⟩ := exists_write hdiffer
      obtain ⟨hkeyed, hin⟩ := hname ((hwrites _).2 (.inr (.inr ⟨write, hwrite, rfl⟩))) hmem
      refine ⟨hkeyed ▸ hin, .inr (.inr ⟨write, hwrite, hkeyed, ?_⟩)⟩
      rw [hvalue]
      exact Ne.symm hdiffer

/-- A member that differs is owned by a key that was set. -/
theorem Sound.owner (hp : Sound syntaxes linux s p) (h : Differ s (p.overlay s) member) :
    ∃ key ∈ keys syntaxes linux, member ∈ key.kind.owned ∧ key.name ∈ p.keys := by
  have hwrite : ∃ name, (name, member) ∈ p.writes := by
    simp only [Patch.writes, mem_append, mem_map]
    cases member with
    | bool m =>
      obtain ⟨write, hwrite, rfl, -⟩ := exists_write h
      exact ⟨write.key, .inl (.inl ⟨write, hwrite, rfl⟩)⟩
    | int m =>
      obtain ⟨write, hwrite, rfl, -⟩ := exists_write h
      exact ⟨write.key, .inl (.inr ⟨write, hwrite, rfl⟩)⟩
    | string m =>
      obtain ⟨write, hwrite, rfl, -⟩ := exists_write h
      exact ⟨write.key, .inr ⟨write, hwrite, rfl⟩⟩
  obtain ⟨name, hname⟩ := hwrite
  obtain ⟨key, hkey, hsame, hmem⟩ := hp.owned _ hname
  refine ⟨key, hkey, hmem, ?_⟩
  rw [hsame]
  exact hp.recorded _ hname

/-- Only a key of this name owns the member. -/
theorem keys_name_of_owned (hkey : key ∈ keys syntaxes linux) (hmem : member ∈ key.kind.owned)
    (hname : ∀ linux, ∀ owner ∈ owners linux, member ∈ owner.2 → owner.1 = name) : key.name = name := by
  have howner : (key.name, key.kind.owned) ∈ owners linux := by
    rw [← keys_owners syntaxes linux]
    exact mem_map_of_mem hkey
  exact hname linux _ howner hmem

theorem secret_unowned (s : Settings) (hp : Sound syntaxes linux s p) :
    (p.overlay s).strings .coreBoxClashApiSecret = s.strings .coreBoxClashApiSecret := by
  by_contra hdiffer
  obtain ⟨key, hkey, hmem, -⟩ := hp.owner (show Differ s (p.overlay s) (.string .coreBoxClashApiSecret) from hdiffer)
  have howner : (key.name, key.kind.owned) ∈ owners linux := by
    rw [← keys_owners syntaxes linux]
    exact mem_map_of_mem hkey
  have hnone : ∀ linux, ∀ owner ∈ owners linux, Member.string .coreBoxClashApiSecret ∉ owner.2 := by
    decide
  exact hnone linux _ howner hmem

/-! ## The Clash API -/

/-- The Clash API is on with an empty secret at an address of other hosts. -/
def Exposed (syntaxes : Syntaxes) (s : Settings) : Prop :=
  0 < s.ints .coreBoxClashApi ∧ s.strings .coreBoxClashApiSecret = "" ∧ isLoopbackHost syntaxes (s.strings .coreBoxClashListenAddr) = false

theorem clashExposure_none (hp : Sound syntaxes linux s p) (h : clashExposure syntaxes s p = "")
    (hexposed : Exposed syntaxes (p.overlay s)) : 0 < s.ints .coreBoxClashApi ∧
    s.strings .coreBoxClashListenAddr = (p.overlay s).strings .coreBoxClashListenAddr := by
  obtain ⟨hon, hsecret, hremote⟩ := hexposed
  rw [clashExposure] at h
  split at h
  next htouches =>
    rw [Bool.and_eq_true, Bool.not_eq_true', Bool.not_eq_true', Patch.touches, Patch.touches,
      contains_eq_mem, contains_eq_mem, decide_eq_false_iff_not,
      decide_eq_false_iff_not] at htouches
    have hport : (p.overlay s).ints .coreBoxClashApi = s.ints .coreBoxClashApi := by
      by_contra hdiffer
      obtain ⟨key, hkey, hmem, hin⟩ := hp.owner (show Differ s (p.overlay s) (.int .coreBoxClashApi) from hdiffer)
      have hname : key.name = "clash_api_port" := keys_name_of_owned hkey hmem (by decide)
      rw [hname] at hin
      exact htouches.1 hin
    have haddr : (p.overlay s).strings .coreBoxClashListenAddr = s.strings .coreBoxClashListenAddr := by
      by_contra hdiffer
      obtain ⟨key, hkey, hmem, hin⟩ := hp.owner (show Differ s (p.overlay s) (.string .coreBoxClashListenAddr) from hdiffer)
      have hname : key.name = "clash_listen_addr" := keys_name_of_owned hkey hmem (by decide)
      rw [hname] at hin
      exact htouches.2 hin
    rw [hport] at hon
    exact ⟨hon, haddr.symm⟩
  next =>
    split at h
    next hoff =>
      rcases hoff with hoff | hkept
      · exact absurd hon (Int.not_lt.2 hoff)
      · rw [secret_unowned s hp] at hsecret
        exact absurd hsecret hkept
    next =>
      split at h
      next hsame => exact ⟨hsame.1, hsame.2.symm⟩
      next =>
        split at h
        next hloopback =>
          rw [hloopback] at hremote
          exact absurd hremote Bool.true_eq_false.mp
        next =>
          refine absurd h ?_
          repeat apply append_ne_empty
          decide

/-! ## The ports -/

/-- The ports in use: the mixed inbound when it is on and not random, DNS-in, the Clash and sing-box
APIs that are on, and the Throne API. -/
def portsInUse (s : Settings) (api : Throne.Api.Remote.Config) : List Int :=
  (portUsers.filter (inUse s)).map (fun user => s.ints user.member) ++
    if api.enabled then [(api.port : Int)] else []

theorem portsInUse_nodup_iff (s : Settings) (api : Throne.Api.Remote.Config) : (portsInUse s api).Nodup ↔
    (∀ user ∈ portUsers, ∀ other ∈ portUsers, inUse s user = true → inUse s other = true →
    s.ints user.member = s.ints other.member → user = other) ∧
    (api.enabled = true → ∀ user ∈ portUsers, inUse s user = true → s.ints user.member ≠ (api.port : Int)) := by
  have husers : (portUsers.filter (inUse s)).Nodup :=
    List.filter_sublist.nodup (show portUsers.Nodup by decide)
  have hlast : (if api.enabled then [(api.port : Int)] else []).Nodup := by
    split
    · exact nodup_singleton _
    · exact nodup_nil
  rw [portsInUse, nodup_append, nodup_map_iff_inj_on husers]
  simp only [mem_filter, mem_map]
  constructor
  · rintro ⟨hinj, -, hlisten⟩
    refine ⟨fun user hu other ho huse house => hinj user ⟨hu, huse⟩ other ⟨ho, house⟩, ?_⟩
    intro henabled user hu huse
    refine hlisten _ ⟨user, ⟨hu, huse⟩, rfl⟩ _ ?_
    rw [if_pos henabled]
    exact mem_singleton_self _
  · rintro ⟨hinj, hlisten⟩
    refine ⟨fun user hu other ho => hinj user hu.1 other ho.1 hu.2 ho.2, hlast, ?_⟩
    rintro _ ⟨user, ⟨hu, huse⟩, rfl⟩ port hport
    split at hport
    next henabled =>
      rw [mem_singleton.1 hport]
      exact hlisten henabled user hu huse
    next => cases hport

/-- The port was moved, or comes back into use with the mixed inbound. -/
def Moved (s t : Settings) (user : PortUser) : Prop :=
  t.ints user.member ≠ s.ints user.member ∨ user.member = .inboundSocksPort ∧ mixedOn t = true ∧ mixedOn s = false

variable {user : PortUser}

/-- A port in use that did not move was in use before. -/
theorem inUse_before (huse : inUse t user = true) (hmoved : ¬Moved s t user) : inUse s user = true ∧ s.ints user.member = t.ints user.member := by
  rw [Moved, not_or, not_not] at hmoved
  obtain ⟨hsame, hmixed⟩ := hmoved
  rw [inUse, Bool.and_eq_true, decide_eq_true_eq, Bool.or_eq_true, bne_iff_ne] at huse ⊢
  rw [hsame] at huse
  refine ⟨⟨huse.1, ?_⟩, hsame.symm⟩
  rcases huse.2 with hother | hon
  · exact .inl hother
  · rcases Decidable.em (user.member = .inboundSocksPort) with hinbound | hother
    · right
      cases hbefore : mixedOn s with
      | true => rfl
      | false => exact absurd ⟨hinbound, hon, hbefore⟩ hmixed
    · exact .inl hother

/-- The mixed inbound turns on only through one of its two flags. -/
theorem flag_of_mixedOn (hon : mixedOn t = true) (hoff : mixedOn s = false) : (t.bools .disableMixedInbound != s.bools .disableMixedInbound ||
    t.bools .randomInboundPort != s.bools .randomInboundPort) = true := by
  rw [mixedOn] at hon hoff
  generalize t.bools .disableMixedInbound = a at hon ⊢
  generalize t.bools .randomInboundPort = b at hon ⊢
  generalize s.bools .disableMixedInbound = c at hoff ⊢
  generalize s.bools .randomInboundPort = d at hoff ⊢
  revert hon hoff
  revert a b c d
  decide

variable {api : Throne.Api.Remote.Config}

/-- A moved port without a conflict has no other user. -/
theorem userConflict_none (h : userConflict s t api user = "")
    (hmoved : Moved s t user) (hpositive : 0 < t.ints user.member) : portHolder t api user = "" := by
  unfold userConflict at h
  extract_lets changes mixedTurnsOn reenabled port holder at h
  split at h
  next hquiet =>
    rw [Bool.and_eq_true, Bool.not_eq_true', Bool.not_eq_true'] at hquiet
    obtain ⟨hunchanged, hnot⟩ := hquiet
    rcases hmoved with hchanged | ⟨hinbound, hon, hoff⟩
    · exact absurd hchanged (of_decide_eq_false hunchanged)
    · have hturns : mixedTurnsOn = true := by
        show (mixedOn t && _) = true
        rw [hon, flag_of_mixedOn hon hoff]
        rfl
      have hre : reenabled = true := by
        show (user.member == .inboundSocksPort && mixedTurnsOn && !changes) = true
        rw [hturns, hunchanged, hinbound]
        rfl
      rw [hre] at hnot
      exact absurd hnot Bool.true_eq_false.mp
  next =>
    split at h
    next hoff => exact absurd hpositive (Int.not_lt.2 hoff)
    next =>
      by_contra hheld
      -- Both messages are texts of their own.
      split at h
      all_goals
        refine absurd h ?_
        repeat apply append_ne_empty
        decide

theorem label_ne_empty : ∀ user ∈ portUsers, user.label ≠ "" := by decide

/-- A port without a holder is no one else's. -/
theorem portHolder_none (h : portHolder t api user = "") : (∀ other ∈ portUsers, inUse t other = true → t.ints other.member = t.ints user.member →
    other.member = user.member) ∧ (api.enabled = true → t.ints user.member ≠ (api.port : Int)) := by
  rw [portHolder] at h
  split at h
  next other hfind =>
    exact absurd h (label_ne_empty other (mem_of_find?_eq_some hfind))
  next hnone =>
    rw [find?_eq_none] at hnone
    refine ⟨fun other hother huse hsame => ?_, fun henabled hsame => ?_⟩
    · by_contra hne
      refine hnone other hother ?_
      rw [bne_iff_ne.2 hne, huse, hsame, beq_self_eq_true]
      rfl
    · rw [henabled, hsame, beq_self_eq_true] at h
      exact absurd h (by decide)

theorem user_of_member : ∀ user ∈ portUsers, ∀ other ∈ portUsers, user.member = other.member → user = other := by decide

/-- Without a conflict the ports in use stay distinct. -/
theorem portConflict_none (h : portConflict s t api = "") (hbefore : (portsInUse s api).Nodup) : (portsInUse t api).Nodup := by
  have hquiet : ∀ user ∈ portUsers, userConflict s t api user = "" := by
    intro user huser
    by_contra hproblem
    have hfind : ((portUsers.map (userConflict s t api)).find? (· ≠ "")).isSome = true :=
      find?_isSome.2 ⟨_, mem_map_of_mem huser, decide_eq_true hproblem⟩
    obtain ⟨problem, hsome⟩ := Option.isSome_iff_exists.1 hfind
    rw [portConflict, hsome] at h
    have hne := find?_some hsome
    exact of_decide_eq_true hne h
  have hfree : ∀ user ∈ portUsers, inUse t user = true → Moved s t user → portHolder t api user = "" := by
    intro user huser huse hmoved
    rw [inUse, Bool.and_eq_true, decide_eq_true_eq] at huse
    exact userConflict_none (hquiet user huser) hmoved huse.1
  rw [portsInUse_nodup_iff] at hbefore ⊢
  obtain ⟨hdistinct, hlisten⟩ := hbefore
  constructor
  · intro user huser other hother huse house hsame
    rcases Classical.em (Moved s t user) with hmoved | hstays
    · have hholder := (portHolder_none (hfree user huser huse hmoved)).1 other hother house
      exact user_of_member user huser other hother (hholder hsame.symm).symm
    · rcases Classical.em (Moved s t other) with hmoved | hstays'
      · have hholder := (portHolder_none (hfree other hother house hmoved)).1 user huser huse
        exact user_of_member user huser other hother (hholder hsame)
      · obtain ⟨hold, hport⟩ := inUse_before huse hstays
        obtain ⟨hold', hport'⟩ := inUse_before house hstays'
        exact hdistinct user huser other hother hold hold' (by rw [hport, hport', hsame])
  · intro henabled user huser huse
    rcases Classical.em (Moved s t user) with hmoved | hstays
    · exact (portHolder_none (hfree user huser huse hmoved)).2 henabled
    · obtain ⟨hold, hport⟩ := inUse_before huse hstays
      rw [← hport]
      exact hlisten henabled user huser hold

/-! ## Put -/

/-- A request that got through every check, or one that wrote nothing. -/
theorem put_cases (syntaxes : Syntaxes) (world : World) (context : Context) (s : Settings)
    (request : List (String × JsonValue)) : ((put syntaxes world context s request).settings = s ∧
    (put syntaxes world context s request).error ≠ none) ∨
    ∃ p, collect syntaxes world.linux s request Patch.empty = .ok p ∧ checkPending syntaxes world context s p = none ∧
    put syntaxes world context s request = finish syntaxes world context s p := by
  rw [put]
  split
  next => exact .inl ⟨rfl, nofun⟩
  next =>
    split
    next => exact .inl ⟨rfl, nofun⟩
    next =>
      split
      next => exact .inl ⟨rfl, nofun⟩
      next p hp =>
        split
        next => exact .inl ⟨rfl, nofun⟩
        next hchecked => exact .inr ⟨p, hp, hchecked, rfl⟩

theorem checkPending_none {world : World} {context : Context} (h : checkPending syntaxes world context s p = none) :
    portConflict s (p.overlay s) world.api = "" ∧ clashExposure syntaxes s p = "" := by
  rw [checkPending] at h
  split at h
  next => cases h
  next hconflict =>
    split at h
    next => cases h
    next hexposure => exact ⟨not_not.1 hconflict, not_not.1 hexposure⟩

theorem finish_settings (syntaxes : Syntaxes) (world : World) (context : Context) (s : Settings) (p : Patch) :
    (finish syntaxes world context s p).settings = ((fillNtpInterval s p).commit s).1 ∧ (finish syntaxes world context s p).error = none ∧
    ∀ name, name ∈ (finish syntaxes world context s p).result.changed ↔ name ∈ ((fillNtpInterval s p).commit s).2 := by
  rw [finish]
  split
  next hempty =>
    refine ⟨rfl, rfl, fun name => ?_⟩
    rw [List.isEmpty_iff.1 hempty]
  next => exact ⟨rfl, rfl, fun name => mem_mergeSort⟩

theorem fillNtpInterval_over (s : Settings) (p : Patch) : ((fillNtpInterval s p).overlay s).bools = (p.overlay s).bools ∧
    ((fillNtpInterval s p).overlay s).ints = (p.overlay s).ints ∧ ∀ member, member ≠ .ntpInterval →
    ((fillNtpInterval s p).overlay s).strings member = (p.overlay s).strings member := by
  rw [fillNtpInterval]
  split
  · exact ⟨rfl, rfl, fun member hne => value_set_other hne⟩
  · exact ⟨rfl, rfl, fun _ _ => rfl⟩

/-- The rules read none of what the NTP default writes. -/
theorem portsInUse_congr (api : Throne.Api.Remote.Config) (hbools : s.bools = t.bools)
    (hints : s.ints = t.ints) : portsInUse s api = portsInUse t api := by
  have huse : inUse s = inUse t := by
    funext user
    rw [inUse, inUse, mixedOn, mixedOn, hbools, hints]
  rw [portsInUse, portsInUse, huse, hints]

theorem collect_values (s : Settings) (p : Patch) : ∀ list : List Key, (∀ key ∈ list, key ∈ keys syntaxes linux) →
    collect syntaxes linux s (list.map fun key => (key.name, key.get s)) p = .ok p := by
  intro list
  induction list with
  | nil => exact fun _ => rfl
  | cons key rest ih =>
    intro hkeys
    have hkey := hkeys key mem_cons_self
    have hfind : findKey syntaxes linux key.name = some key := by
      cases hfound : findKey syntaxes linux key.name with
      | none =>
        rw [findKey, find?_eq_none] at hfound
        exact absurd (decide_eq_true rfl) (hfound key hkey)
      | some other =>
        obtain ⟨hother, hname⟩ := findKey_some hfound
        rw [key_of_name hother hkey hname]
    rw [map_cons, collect, hfind]
    show (if _ ∨ key.get s = key.get s then _ else _) = _
    rw [if_pos (.inr rfl)]
    exact ih fun other hother => hkeys other (mem_cons_of_mem key hother)

theorem userConflict_self (s : Settings) (api : Throne.Api.Remote.Config) (user : PortUser) : userConflict s s api user = "" := by
  have hturns : (mixedOn s && (s.bools .disableMixedInbound != s.bools .disableMixedInbound ||
      s.bools .randomInboundPort != s.bools .randomInboundPort)) = false := by
    rw [bne_self_eq_false, bne_self_eq_false, Bool.or_self, Bool.and_false]
  rw [userConflict, hturns, decide_eq_false (not_not.2 rfl), Bool.and_false, Bool.false_and]
  rfl

/-- The values sent back unchanged pass every check and write nothing. -/
theorem put_values (syntaxes : Syntaxes) (world : World) (context : Context) (s : Settings) :
    (put syntaxes world context s (values syntaxes world s)).settings = s ∧
    (put syntaxes world context s (values syntaxes world s)).result.changed = [] ∧
    (put syntaxes world context s (values syntaxes world s)).saved = false := by
  have hconflict : portConflict s s world.api = "" := by
    rw [portConflict, find?_eq_none.2]
    · rfl
    · intro problem hproblem
      obtain ⟨user, -, rfl⟩ := mem_map.1 hproblem
      rw [decide_eq_true_eq, not_not]
      exact userConflict_self s world.api user
  have hsame : (s.bools .disableMixedInbound != s.bools .disableMixedInbound) = false := bne_self_eq_false _
  have hpending : checkPending syntaxes world context s Patch.empty = none := by
    have hover : Patch.empty.overlay s = s := rfl
    have hexposure : clashExposure syntaxes s Patch.empty = "" := rfl
    rw [checkPending, hover, hconflict, hexposure, hsame, Bool.and_false, Bool.false_and]
    rfl
  have hcollect : collect syntaxes world.linux s (values syntaxes world s) Patch.empty = .ok Patch.empty :=
    collect_values s Patch.empty (keys syntaxes world.linux) fun _ hkey => hkey
  rw [put, hcollect]
  split
  next => exact ⟨rfl, rfl, rfl⟩
  next =>
    split
    next => exact ⟨rfl, rfl, rfl⟩
    next =>
      simp only [hpending]
      exact ⟨rfl, rfl, rfl⟩

/-- The request is atomic and keeps the port and exposure rules. -/
structure PutKeepsRules (syntaxes : Syntaxes) (world : World) (context : Context) (s : Settings)
    (request : List (String × JsonValue)) : Prop where
  failed : (put syntaxes world context s request).error ≠ none → (put syntaxes world context s request).settings = s
  reported : ∀ key ∈ keys syntaxes world.linux, (put syntaxes world context s request).error = none →
      (key.name ∈ (put syntaxes world context s request).result.changed ↔ key.get (put syntaxes world context s request).settings ≠ key.get s)
  owned : ∀ member, Differ s (put syntaxes world context s request).settings member →
    ∃ key ∈ keys syntaxes world.linux, member ∈ key.kind.owned ∧ key.name ∈ (put syntaxes world context s request).result.changed
  unchanged : (put syntaxes world context s (values syntaxes world s)).settings = s ∧
    (put syntaxes world context s (values syntaxes world s)).result.changed = [] ∧
    (put syntaxes world context s (values syntaxes world s)).saved = false
  ports : (put syntaxes world context s request).error = none → (portsInUse s world.api).Nodup →
    (portsInUse (put syntaxes world context s request).settings world.api).Nodup
  exposure : (put syntaxes world context s request).error = none → Exposed syntaxes (put syntaxes world context s request).settings →
      Exposed syntaxes s ∧ s.strings .coreBoxClashListenAddr = (put syntaxes world context s request).settings.strings .coreBoxClashListenAddr

/-- For every settings state, every request and every state of the rest of the program: an error
leaves the settings alone, a success reports exactly the keys that read differently and changes no
other member, the values sent back change nothing, and distinct ports in use and the exposure of the
Clash API are kept. -/
theorem put_keeps_rules (syntaxes : Syntaxes) (world : World) (context : Context) (s : Settings)
    (request : List (String × JsonValue)) : PutKeepsRules syntaxes world context s request := by
  rcases put_cases syntaxes world context s request with ⟨hsame, herror⟩ |
    ⟨p, hcollect, hchecked, hput⟩
  · exact
      { failed := fun _ => hsame
        reported := fun _ _ hnone => absurd hnone herror
        owned := fun member hdiffer => by
          rw [hsame] at hdiffer
          cases member <;> exact absurd rfl hdiffer
        unchanged := put_values syntaxes world context s
        ports := fun hnone => absurd hnone herror
        exposure := fun hnone => absurd hnone herror }
  · have hp : Sound syntaxes world.linux s p := collect_sound (sound_empty s) hcollect
    have hfilled := fillNtpInterval_sound hp
    obtain ⟨hconflict, hexposure⟩ := checkPending_none hchecked
    obtain ⟨hsettings, hnone, hchanged⟩ := finish_settings syntaxes world context s p
    obtain ⟨hbools, hints, hstrings⟩ := fillNtpInterval_over s p
    rw [(commit_spec hfilled.distinct).1, ← hput] at hsettings
    rw [← hput] at hnone hchanged
    refine
      { failed := fun herror => absurd hnone herror
        reported := ?_
        owned := ?_
        unchanged := put_values syntaxes world context s
        ports := ?_
        exposure := ?_ }
    · intro key hkey _
      rw [hchanged, hsettings]
      exact reported_iff hfilled hkey
    · intro member hdiffer
      rw [hsettings] at hdiffer
      obtain ⟨key, hkey, hmem, -⟩ := hfilled.owner hdiffer
      refine ⟨key, hkey, hmem, ?_⟩
      rw [hchanged]
      exact (reported_iff hfilled hkey).2 ((hfilled.agrees key hkey).1 ⟨member, hmem, hdiffer⟩)
    · intro _ hbefore
      rw [hsettings, portsInUse_congr world.api hbools hints]
      exact portConflict_none hconflict hbefore
    · intro _ hexposed
      rw [hsettings] at hexposed ⊢
      have hpending : Exposed syntaxes (p.overlay s) := by
        rw [Exposed, hints, hstrings _ (by decide), hstrings _ (by decide)] at hexposed
        exact hexposed
      obtain ⟨hon, haddr⟩ := clashExposure_none hp hexposure hpending
      obtain ⟨-, hsecret, hremote⟩ := hpending
      rw [hstrings _ (by decide)]
      refine ⟨⟨hon, ?_, ?_⟩, haddr⟩
      · rw [← secret_unowned s hp]
        exact hsecret
      · rw [haddr]
        exact hremote

end Throne.Engine.Services
