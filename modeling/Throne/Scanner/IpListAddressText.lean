import Throne.Scanner.IpListAddress
import Mathlib.Tactic.NormNum

/-!
# Addresses read back

What the reader of `IpListAddress` makes of texts as the writer leaves them. An IPv6 address may be written in
several ways (`Written`): all eight groups, or "::" in the place of some groups of zero. `read_written` reads
any of them, `written_format` says the writer's is one. With `network_cidr` a network that was written is read
as itself, up to the mapping of IPv4 and the masking.
-/

namespace Throne.Scanner.IpListParse

open Lib.Texts Database.Routes List

/-- A word shifted to make room. -/
theorem shiftLeft_or {k low : Nat} (word : Nat) (h : low < 2 ^ k) : word <<< k ||| low = word * 2 ^ k + low := by
  rw [← Nat.shiftLeft_add_eq_or_of_lt h, Nat.shiftLeft_eq]

/-! ## Hex digits -/

theorem hexDigit_digitChar {digit : Nat} (h : digit < 16) : ipListParseHexDigit digit.digitChar = some digit := by
  have hall : ∀ d < 16, ipListParseHexDigit (Nat.digitChar d) = some d := by decide
  exact hall digit h

variable {group : Nat}

theorem hexText_step (h : 16 ≤ group) : hexText group = hexText (group / 16) ++ [(group % 16).digitChar] :=
  Nat.toDigits_of_base_le (by decide) h

theorem hexText_digit (h : group < 16) : hexText group = [group.digitChar] := Nat.toDigits_of_lt_base h

theorem hexText_ne_nil (group : Nat) : hexText group ≠ [] := Nat.toDigits_ne_nil

theorem length_hexText (h : group < 65536) : (hexText group).length ≤ 4 :=
  (Nat.length_toDigits_le_iff (by decide) (by decide)).2 h

theorem hexValue_hexText (group : Nat) : hexValue (hexText group) = some group := by
  induction group using Nat.strongRecOn with
  | ind group ih =>
    rcases Nat.lt_or_ge group 16 with hlt | hge
    · rw [hexText_digit hlt, hexValue, foldlM_cons, hexDigit_digitChar hlt]
      simp
    · have hlow : group % 16 < 16 := Nat.mod_lt group (by decide)
      have hhigh := ih (group / 16) (by omega)
      rw [hexValue] at hhigh
      rw [hexText_step hge, hexValue, foldlM_append, hhigh]
      show (ipListParseHexDigit _).map _ >>= _ = _
      rw [hexDigit_digitChar hlow]
      show some ((group / 16) <<< 4 ||| group % 16) = some group
      rw [shiftLeft_or _ hlow]
      congr 1
      omega

variable {c : Char}

theorem hexDigit_of_mem (h : c ∈ hexText group) : (ipListParseHexDigit c).isSome := by
  induction group using Nat.strongRecOn with
  | ind group ih =>
    rcases Nat.lt_or_ge group 16 with hlt | hge
    · rw [hexText_digit hlt] at h
      rw [mem_singleton.1 h, hexDigit_digitChar hlt]
      rfl
    · rw [hexText_step hge] at h
      rcases mem_append.1 h with hfront | hlast
      · exact ih (group / 16) (by omega) hfront
      · rw [mem_singleton.1 hlast, hexDigit_digitChar (Nat.mod_lt group (by decide))]
        rfl

/-- The characters of the groups: none of them separates anything. -/
theorem ne_of_mem_hexText {d : Char} (h : c ∈ hexText group) (hd : ipListParseHexDigit d = none) : c ≠ d := by
  rintro rfl
  have hsome := hexDigit_of_mem h
  rw [hd] at hsome
  exact Bool.false_ne_true hsome

/-! ## Groups with colons -/

/-- No two colons next to each other. -/
abbrev Single (text : Text) : Prop := text.IsChain fun a b => ¬(a = ':' ∧ b = ':')

theorem joinGroups_cons (first next : Nat) (rest : List Nat) :
    joinGroups (first :: next :: rest) = hexText first ++ ':' :: joinGroups (next :: rest) := by
  rw [joinGroups, map_cons, map_cons, intercalate_cons_cons, append_assoc]
  rfl

theorem joinGroups_singleton (group : Nat) : joinGroups [group] = hexText group := by
  simp [joinGroups]

/-- A group between two colons. -/
theorem single_group (group : Nat) (text : Text) (h : Single (':' :: text)) : Single (':' :: (hexText group ++ ':' :: text)) := by
  have hsolid : ∀ c ∈ hexText group, c ≠ ':' := fun c hc => ne_of_mem_hexText hc (by decide)
  have hgroup : Single (hexText group) := by
    apply List.IsChain.imp (R := fun a _ => a ≠ ':')
    · exact fun a b ha hboth => ha hboth.1
    · generalize hexText group = digits at hsolid
      induction digits with
      | nil => exact .nil
      | cons c cs ih =>
        rw [isChain_cons]
        exact ⟨fun _ _ => hsolid c mem_cons_self, ih fun d hd => hsolid d (mem_cons_of_mem c hd)⟩
  apply List.IsChain.cons
  · apply hgroup.append h
    intro c hc d _ hboth
    exact hsolid c (mem_of_getLast? hc) hboth.1
  · intro c hc hboth
    cases htext : hexText group with
    | nil => exact hexText_ne_nil group htext
    | cons d ds =>
      rw [htext] at hc hsolid
      rw [cons_append, head?_cons, Option.mem_some_iff] at hc
      exact hsolid d mem_cons_self (hc.trans hboth.2)

theorem single_joinGroups : ∀ {groups : List Nat}, groups ≠ [] → Single (':' :: (joinGroups groups ++ [':']))
  | [], h => absurd rfl h
  | [group], _ => by
    rw [joinGroups_singleton]
    exact single_group group [] (by simp)
  | first :: next :: rest, _ => by
    rw [joinGroups_cons, append_assoc, cons_append]
    exact single_group first _ (single_joinGroups (cons_ne_nil next rest))

variable {text : Text}

theorem gap_at (h : "::".toList.isPrefixOf text = true) : ∃ rest, text = ':' :: ':' :: rest := by
  obtain ⟨rest, hrest⟩ := isPrefixOf_iff_prefix.1 h
  exact ⟨rest, hrest.symm⟩

theorem cutAt_single (h : Single text) : cutAt "::".toList text = none := by
  induction text with
  | nil => rfl
  | cons c rest ih =>
    have hno : "::".toList.isPrefixOf (c :: rest) ≠ true := by
      intro hyes
      obtain ⟨more, hmore⟩ := gap_at hyes
      rw [hmore] at h
      exact (isChain_cons_cons.1 h).1 ⟨rfl, rfl⟩
    rw [cutAt, if_neg hno, ih h.tail]
    rfl

/-- The first gap is behind a front without one. -/
theorem cutAt_gap {front : Text} (h : Single (front ++ [':'])) (rest : Text) :
    cutAt "::".toList (front ++ "::".toList ++ rest) = some (front, rest) := by
  induction front with
  | nil => exact cutAt_here (by decide) rest
  | cons c front ih =>
    have hno : "::".toList.isPrefixOf (c :: (front ++ "::".toList ++ rest)) ≠ true := by
      intro hyes
      obtain ⟨more, hmore⟩ := gap_at hyes
      rw [List.cons.injEq] at hmore
      -- the character behind `c` is a colon in both texts
      cases front with
      | nil => exact (isChain_cons_cons.1 h).1 ⟨hmore.1, rfl⟩
      | cons d ds => exact (isChain_cons_cons.1 h).1 ⟨hmore.1, (List.cons.inj hmore.2).1⟩
    rw [cons_append, cons_append, cutAt, if_neg hno, ih h.tail]
    rfl

/-! ## The groups of an IPv6 address -/

variable {groups : List Nat}

theorem groups_hex (allowV4Tail : Bool) {count : Nat} (hlt : ∀ g ∈ groups, g < 65536)
    (hcount : count + groups.length ≤ 8) : ipListParseGroups allowV4Tail count (groups.map hexText) = some groups := by
  induction groups generalizing count with
  | nil => rfl
  | cons group rest ih =>
    rw [length_cons] at hcount
    have hgroup : group < 65536 := hlt group mem_cons_self
    have hdot : ¬(rest.map hexText = [] ∧ allowV4Tail = true ∧ '.' ∈ hexText group) :=
      fun h => ne_of_mem_hexText h.2.2 (by decide) rfl
    have hfits : ¬(hexText group = [] ∨ 4 < (hexText group).length ∨ 8 ≤ count) := by
      rintro (hnil | hlong | hmany)
      · exact hexText_ne_nil group hnil
      · exact absurd (length_hexText hgroup) (Nat.not_le.2 hlong)
      · omega
    rw [map_cons, ipListParseGroups, if_neg hdot, if_neg hfits, hexValue_hexText, ih (fun g hg => hlt g (mem_cons_of_mem group hg)) (by omega)]

theorem part_joinGroups (allowV4Tail : Bool) (hlt : ∀ g ∈ groups, g < 65536) (hlength : groups.length ≤ 8) :
    ipListParseV6Part (joinGroups groups) allowV4Tail = some groups := by
  unfold ipListParseV6Part
  by_cases hnil : groups = []
  · rw [hnil]
    rfl
  · have hne : joinGroups groups ≠ [] := by
      intro hempty
      cases groups with
      | nil => exact hnil rfl
      | cons first rest =>
        cases rest with
        | nil =>
          rw [joinGroups_singleton] at hempty
          exact hexText_ne_nil first hempty
        | cons next rest =>
          rw [joinGroups_cons] at hempty
          exact hexText_ne_nil first (append_eq_nil_iff.1 hempty).1
    have hsplit : (joinGroups groups).splitOn ':' = groups.map hexText := by
      apply splitOn_intercalate
      · intro text htext hcolon
        obtain ⟨group, -, rfl⟩ := mem_map.1 htext
        exact ne_of_mem_hexText hcolon (by decide) rfl
      · exact fun h => hnil (map_eq_nil_iff.1 h)
    rw [if_neg hne, hsplit]
    exact groups_hex allowV4Tail hlt (by omega)

/-- The ways to write eight groups: all of them, or "::" for some that are zero. -/
inductive Written : List Nat → Text → Prop
  | all (groups : List Nat) : Written groups (joinGroups groups)
  | gap (head tail : List Nat) (zeros : Nat) : 0 < zeros →
      Written (head ++ List.replicate zeros 0 ++ tail) (joinGroups head ++ "::".toList ++ joinGroups tail)

/-- Eight groups that were written are read. -/
theorem read_written (h : Written groups text) (hlength : groups.length = 8)
    (hlt : ∀ g ∈ groups, g < 65536) : ipListParseV6Groups text = some groups := by
  cases h with
  | all =>
    have hne : groups ≠ [] := by
      intro hnil
      rw [hnil] at hlength
      cases hlength
    have hsingle : Single (joinGroups groups) := (single_joinGroups hne).tail.left_of_append
    rw [ipListParseV6Groups, cutAt_single hsingle]
    simp only [part_joinGroups true hlt (Nat.le_of_eq hlength), hlength, if_true]
  | gap head tail zeros hpos =>
    rw [length_append, length_append, length_replicate] at hlength
    have hhead : Single (joinGroups head ++ [':']) := by
      cases head with
      | nil => exact .singleton _
      | cons first rest => exact (single_joinGroups (cons_ne_nil first rest)).tail
    have htail : Single (':' :: joinGroups tail) := by
      cases tail with
      | nil => exact .singleton _
      | cons first rest =>
        have hall : Single ((':' :: joinGroups (first :: rest)) ++ [':']) := single_joinGroups (cons_ne_nil first rest)
        exact hall.left_of_append
    have hheadLt : ∀ g ∈ head, g < 65536 :=
      fun g hg => hlt g (mem_append_left _ (mem_append_left _ hg))
    have htailLt : ∀ g ∈ tail, g < 65536 := fun g hg => hlt g (mem_append_right _ hg)
    rw [ipListParseV6Groups, cutAt_gap hhead]
    simp only [cutAt_single htail, part_joinGroups false hheadLt (by omega),
      part_joinGroups true htailLt (by omega), Option.isSome_none, Bool.false_eq_true, if_false]
    rw [if_neg (by omega)]
    have hzeros : 8 - head.length - tail.length = zeros := by omega
    rw [hzeros]

/-! ## The run that becomes "::" -/

/-- A run of zeros found so far in the groups. -/
def RunOf (groups : List Nat) (best : Option Nat × Nat) : Prop :=
  0 < best.2 ∧ ∀ start ∈ best.1, ∃ head tail, groups = head ++ List.replicate best.2 0 ++ tail ∧ head.length = start

theorem run_here (front rest : List Nat) (h : 0 < (rest.takeWhile (· = 0)).length) :
    RunOf (front ++ rest) (some front.length, (rest.takeWhile (· = 0)).length) := by
  refine ⟨h, fun start hstart => ?_⟩
  refine ⟨front, rest.dropWhile (· = 0), ?_, Option.some.inj hstart⟩
  have hzeros : rest.takeWhile (· = 0) = List.replicate (rest.takeWhile (· = 0)).length 0 :=
    eq_replicate_iff.2 ⟨rfl, fun g hg => by simpa using mem_takeWhile_imp hg⟩
  show front ++ rest = front ++ List.replicate (rest.takeWhile (· = 0)).length 0 ++ rest.dropWhile (· = 0)
  rw [← hzeros, append_assoc, takeWhile_append_dropWhile]

theorem longestZeros_run (rest front : List Nat) {best : Option Nat × Nat} (h : RunOf (front ++ rest) best) :
    RunOf (front ++ rest) (longestZeros front.length rest best) := by
  induction rest generalizing front best with
  | nil => exact h
  | cons group rest ih =>
    have hnext := @ih (front ++ [group])
    rw [append_assoc, singleton_append, length_append, length_singleton] at hnext
    obtain ⟨bestStart, bestLength⟩ := best
    rw [longestZeros]
    apply hnext
    split
    · next hlonger => exact run_here front (group :: rest) (Nat.lt_of_le_of_lt (Nat.zero_le _) hlonger)
    · exact h

theorem written_format (groups : List Nat) : Written groups (formatGroups groups) := by
  have hrun : RunOf groups (longestZeros 0 groups (none, 1)) := by
    apply longestZeros_run groups []
    exact ⟨Nat.one_pos, nofun⟩
  unfold formatGroups
  split
  · exact .all groups
  · next bestStart bestLength hbest =>
    rw [hbest] at hrun
    obtain ⟨hpos, hfound⟩ := hrun
    obtain ⟨head, tail, hgroups, hlength⟩ := hfound bestStart rfl
    have htake : groups.take bestStart = head := by
      rw [hgroups, append_assoc, ← hlength, take_left]
    have hdrop : groups.drop (bestStart + bestLength) = tail := by
      have hfront : bestStart + bestLength = (head ++ List.replicate bestLength 0).length := by
        rw [length_append, length_replicate, hlength]
      rw [hgroups, hfront, drop_left]
    rw [htake, hdrop]
    conv => rw [hgroups]
    exact .gap head tail bestLength hpos

/-! ## Words and octets -/

theorem and_ones (k n : Nat) : n &&& 2 ^ k - 1 = n % 2 ^ k := Nat.and_two_pow_sub_one_eq_mod n k

theorem groupsOf_lt (word : Nat) : ∀ g ∈ groupsOf word, g < 65536 := by
  have hmod (n : Nat) : n &&& 0xffff < 65536 := by
    rw [show (0xffff : Nat) = 2 ^ 16 - 1 from rfl, and_ones]
    exact Nat.mod_lt n (by decide)
  intro g hg
  simp only [groupsOf, mem_cons, not_mem_nil, or_false] at hg
  rcases hg with rfl | rfl | rfl | rfl <;> exact hmod _

theorem wordOf_groupsOf {word : Nat} (h : word < 2 ^ 64) : wordOf (groupsOf word) = word := by
  have hmod (n : Nat) : n &&& 0xffff = n % 65536 := and_ones 16 n
  have hor (w n : Nat) : w <<< 16 ||| n % 65536 = w * 65536 + n % 65536 :=
    shiftLeft_or w (Nat.mod_lt n (by decide))
  show (((0 <<< 16 ||| word >>> 48 &&& 0xffff) <<< 16 ||| word >>> 32 &&& 0xffff) <<< 16 ||| word >>> 16 &&& 0xffff) <<< 16 ||| word &&& 0xffff = word
  simp only [hmod, hor, Nat.shiftRight_eq_div_pow]
  omega

theorem octet_natText {octet : Nat} (h : octet < 256) : ipListParseOctet (natText octet) = some octet := by
  have hall : ∀ o < 256, ipListParseOctet (natText o) = some o := by decide +kernel
  exact hall octet h

variable {n : Nat}

theorem ne_of_mem_natText {d : Char} (h : c ∈ natText n) (hd : d.isDigit = false) : c ≠ d := by
  rintro rfl
  rw [isDigit_of_mem_natText h] at hd
  exact Bool.true_eq_false_eq_False hd

/-- Four octets with dots between them. -/
def dotted (a b c d : Nat) : Text := ['.'].intercalate [natText a, natText b, natText c, natText d]

theorem read_dotted {a b c d : Nat} (ha : a < 256) (hb : b < 256) (hc : c < 256) (hd : d < 256) :
    ipListParseV4 (dotted a b c d) = some (((a * 256 + b) * 256 + c) * 256 + d) := by
  have hsplit : (dotted a b c d).splitOn '.' = [natText a, natText b, natText c, natText d] := by
    apply splitOn_intercalate
    · intro part hpart hdot
      simp only [mem_cons, not_mem_nil, or_false] at hpart
      rcases hpart with rfl | rfl | rfl | rfl <;> exact ne_of_mem_natText hdot (by decide) rfl
    · exact cons_ne_nil _ _
  rw [ipListParseV4, hsplit]
  simp only [map_cons, map_nil, octet_natText ha, octet_natText hb, octet_natText hc, octet_natText hd, Option.some.injEq]
  rw [shiftLeft_or _ (show b < 2 ^ 8 from hb), shiftLeft_or _ (show c < 2 ^ 8 from hc), shiftLeft_or _ (show d < 2 ^ 8 from hd)]
  norm_num

/-! ## Addresses -/

/-- The words are in their bounds. -/
def IpListParseAddr.Valid (addr : IpListParseAddr) : Prop :=
  if addr.v6 then addr.hi < 2 ^ 64 ∧ addr.lo < 2 ^ 64 else addr.hi = 0 ∧ addr.lo < 2 ^ 32

/-- The characters an address is written in. -/
def formatChar (c : Char) : Bool := c == ':' || c == '.' || (ipListParseHexDigit c).isSome

theorem formatChar_of_digit (h : c.isDigit = true) : formatChar c = true := by
  have hhex : (ipListParseHexDigit c).isSome = true := by
    unfold ipListParseHexDigit
    rw [Char.isDigit, Bool.and_eq_true] at h
    rw [if_pos ⟨of_decide_eq_true h.1, of_decide_eq_true h.2⟩]
    rfl
  rw [formatChar, hhex, Bool.or_true]

/-- All of them are visible signs below 127. -/
theorem formatChar_range (h : formatChar c = true) : 33 ≤ c.toNat ∧ c.toNat < 127 := by
  simp only [formatChar, Bool.or_eq_true, beq_iff_eq] at h
  rcases h with (rfl | rfl) | hhex
  · decide
  · decide
  · unfold ipListParseHexDigit at hhex
    split at hhex
    · next hc => exact ⟨Nat.le_trans (by decide) hc.1, Nat.lt_of_le_of_lt hc.2 (by decide)⟩
    · split at hhex
      · next hc => exact ⟨Nat.le_trans (by decide) hc.1, Nat.lt_of_le_of_lt hc.2 (by decide)⟩
      · split at hhex
        · next hc => exact ⟨Nat.le_trans (by decide) hc.1, Nat.lt_of_le_of_lt hc.2 (by decide)⟩
        · cases hhex

theorem isSpace_of_formatChar (h : formatChar c = true) : isSpace c = false := by
  have hrange := formatChar_range h
  simp only [isSpace, Bool.or_eq_false_iff, Bool.and_eq_false_iff, beq_eq_false_iff_ne, decide_eq_false_iff_not]
  omega

theorem mem_joinGroups (h : c ∈ joinGroups groups) : formatChar c = true := by
  have hhex {group : Nat} (hc : c ∈ hexText group) : formatChar c = true := by
    rw [formatChar, hexDigit_of_mem hc, Bool.or_true]
  induction groups with
  | nil => cases h
  | cons first rest ih =>
    cases rest with
    | nil =>
      rw [joinGroups_singleton] at h
      exact hhex h
    | cons next rest =>
      rw [joinGroups_cons] at h
      rcases mem_append.1 h with hfirst | hrest
      · exact hhex hfirst
      · rcases mem_cons.1 hrest with rfl | hrest
        · decide
        · exact ih hrest

theorem mem_written (h : Written groups text) (hc : c ∈ text) : formatChar c = true := by
  cases h with
  | all => exact mem_joinGroups hc
  | gap head tail zeros =>
    rcases mem_append.1 hc with hfront | htail
    · rcases mem_append.1 hfront with hhead | hgap
      · exact mem_joinGroups hhead
      · have hcolon : c = ':' := by simpa using hgap
        rw [hcolon]
        decide
    · exact mem_joinGroups htail

theorem mem_dotted {w x y z : Nat} (h : c ∈ dotted w x y z) : c = '.' ∨ c.isDigit = true := by
  have hdigit {n : Nat} (hc : c ∈ natText n) : c.isDigit = true := isDigit_of_mem_natText hc
  simp only [dotted, intercalate_cons_cons, intercalate_singleton, mem_append, mem_singleton] at h
  rcases h with ((hw | hdot) | (hx | hdot) | (hy | hdot) | hz)
  all_goals tauto

/-- Eight groups are not written without a colon. -/
theorem colon_mem_written (h : Written groups text) (hlength : groups.length = 8) : ':' ∈ text := by
  cases h with
  | all =>
    match groups, hlength with
    | first :: next :: rest, _ =>
      rw [joinGroups_cons]
      exact mem_append_right _ mem_cons_self
  | gap head tail zeros => simp

/-- An IPv6 address in any way it is written. -/
theorem address_written (h : Written groups text) (hlength : groups.length = 8) (hlt : ∀ g ∈ groups, g < 65536) :
    ipListParseAddress text = some ⟨true, wordOf (groups.take 4), wordOf (groups.drop 4)⟩ := by
  have hzone : text.takeWhile (· ≠ '%') = text := by
    rw [takeWhile_eq_self_iff]
    intro c hc
    have hchar := mem_written h hc
    simp only [decide_eq_true_eq]
    rintro rfl
    cases hchar
  have hcolon : text.contains ':' = true := contains_iff_mem.2 (colon_mem_written h hlength)
  rw [ipListParseAddress, hcolon, if_pos rfl, hzone, ipListParseV6, read_written h hlength hlt]
  rfl

theorem address_dotted {a b c d : Nat} (ha : a < 256) (hb : b < 256) (hc : c < 256) (hd : d < 256) :
    ipListParseAddress (dotted a b c d) = some ⟨false, 0, ((a * 256 + b) * 256 + c) * 256 + d⟩ := by
  have hcolon : ¬(dotted a b c d).contains ':' = true := by
    intro hin
    rcases mem_dotted (contains_iff_mem.1 hin) with hdot | hdigit
    · cases hdot
    · cases hdigit
  rw [ipListParseAddress, if_neg hcolon, read_dotted ha hb hc hd]
  rfl

/-- An IPv4 address is written as its octets. -/
theorem format_v4 {lo : Nat} (h : lo < 2 ^ 32) : ∃ a b c d, a < 256 ∧ b < 256 ∧ c < 256 ∧ d < 256 ∧
    lo = ((a * 256 + b) * 256 + c) * 256 + d ∧ ipListParseFormat ⟨false, 0, lo⟩ = dotted a b c d := by
  have hmod (n : Nat) : n &&& 0xff = n % 256 := and_ones 8 n
  refine ⟨lo / 2 ^ 24, lo / 2 ^ 16 % 256, lo / 2 ^ 8 % 256, lo % 256, by omega, by omega, by omega, by omega, by omega, ?_⟩
  show ['.'].intercalate [_, _, _, _] = _
  simp only [hmod, Nat.shiftRight_eq_div_pow]
  rfl

variable {addr : IpListParseAddr}

/-- What is written of an address says it. -/
theorem address_format (h : addr.Valid) : ipListParseAddress (ipListParseFormat addr) = some addr := by
  obtain ⟨v6, hi, lo⟩ := addr
  cases v6 with
  | false =>
    obtain ⟨hhi, hlo⟩ : hi = 0 ∧ lo < 2 ^ 32 := h
    obtain ⟨a, b, c, d, ha, hb, hc, hd, hvalue, hformat⟩ := format_v4 hlo
    rw [hhi, hformat, address_dotted ha hb hc hd, ← hvalue]
  | true =>
    obtain ⟨hhi, hlo⟩ : hi < 2 ^ 64 ∧ lo < 2 ^ 64 := h
    have hwritten := written_format (groupsOf hi ++ groupsOf lo)
    have hlt : ∀ g ∈ groupsOf hi ++ groupsOf lo, g < 65536 := by
      intro g hg
      exact (mem_append.1 hg).elim (groupsOf_lt hi g) (groupsOf_lt lo g)
    have hread := address_written hwritten rfl hlt
    rw [show (groupsOf hi ++ groupsOf lo).take 4 = groupsOf hi from rfl, show (groupsOf hi ++ groupsOf lo).drop 4 = groupsOf lo from rfl,
      wordOf_groupsOf hhi, wordOf_groupsOf hlo] at hread
    exact hread

theorem mem_format (h : addr.Valid) (hc : c ∈ ipListParseFormat addr) : formatChar c = true := by
  obtain ⟨v6, hi, lo⟩ := addr
  cases v6 with
  | false =>
    obtain ⟨hhi, hlo⟩ : hi = 0 ∧ lo < 2 ^ 32 := h
    obtain ⟨x, y, z, w, -, -, -, -, -, hformat⟩ := format_v4 hlo
    rw [hhi, hformat] at hc
    rcases mem_dotted hc with rfl | hdigit
    · decide
    · exact formatChar_of_digit hdigit
  | true => exact mem_written (written_format _) hc

/-! ## Networks -/

/-- Digits read back, of any number of them. -/
theorem decimal_written {maxDigits : Nat} (hpos : 0 < maxDigits) (h : n < 10 ^ maxDigits) : ipListParseDecimal (natText n) maxDigits = some n := by
  have hdigits := isDigits_natText n
  rw [isDigits, Bool.and_eq_true] at hdigits
  have hempty : (natText n).isEmpty = false := by simpa using hdigits.1
  have hlength : (natText n).length ≤ maxDigits := by
    rw [natText_eq]
    exact (Nat.length_toDigits_le_iff (by decide) hpos).2 h
  have hfits : ((natText n).isEmpty || decide (maxDigits < (natText n).length)) = false := by
    rw [hempty, decide_eq_false (Nat.not_lt.2 hlength), Bool.or_false]
  rw [ipListParseDecimal, hfits, if_neg Bool.false_ne_true, if_pos hdigits.2, decimalValue_natText]

theorem decimal_natText (h : n < 1000) : ipListParseDecimal (natText n) 3 = some n :=
  decimal_written (by decide) h

theorem cutAt_slash {front : Text} (h : '/' ∉ front) (rest : Text) :
    cutAt "/".toList front = none ∧ cutAt "/".toList (front ++ '/' :: rest) = some (front, rest) :=
  cutAt_char h rest

/-- A network that was written is read as what is left to do with it. -/
theorem network_cidr (h : addr.Valid) {bits : Nat} (hbits : bits ≤ ipListParseBits addr) :
    ipListParseNetwork (ipListParseCidr addr bits) = ipListParseNetwork.finish addr bits := by
  have hslash : '/' ∉ ipListParseFormat addr := fun hin => absurd (mem_format h hin) (by decide)
  have hbracket {text : Text} (hno : '[' ∉ text) : ¬"[".toList.isPrefixOf text = true := by
    intro hyes
    obtain ⟨rest, hrest⟩ := isPrefixOf_iff_prefix.1 hyes
    rw [← hrest] at hno
    exact hno mem_cons_self
  have hopen : '[' ∉ ipListParseFormat addr := fun hin => absurd (mem_format h hin) (by decide)
  have hsolid : ∀ c ∈ ipListParseFormat addr, isSpace c = false :=
    fun c hc => isSpace_of_formatChar (mem_format h hc)
  by_cases hhost : ipListParseBits addr ≤ bits
  · -- a host without its number of bits
    have htrim : trimmed (ipListParseFormat addr) = ipListParseFormat addr := strip_eq_self hsolid
    rw [ipListParseCidr, if_pos hhost, ipListParseNetwork, htrim, networkParts, if_neg (hbracket hopen), (cutAt_slash hslash []).1]
    simp only [address_format h]
    rw [Nat.le_antisymm hbits hhost]
  · have hdigit {c : Char} (hc : c ∈ natText bits) : formatChar c = true :=
      formatChar_of_digit (isDigit_of_mem_natText hc)
    have hsolid' : ∀ c ∈ ipListParseFormat addr ++ '/' :: natText bits, isSpace c = false := by
      intro c hc
      rcases mem_append.1 hc with hfront | hback
      · exact hsolid c hfront
      · rcases mem_cons.1 hback with rfl | hback
        · decide
        · exact isSpace_of_formatChar (hdigit hback)
    have hopen' : '[' ∉ ipListParseFormat addr ++ '/' :: natText bits := by
      intro hin
      rcases mem_append.1 hin with hfront | hback
      · exact hopen hfront
      · rcases mem_cons.1 hback with heq | hback
        · cases heq
        · exact absurd (hdigit hback) (by decide)
    have hsmall : bits < 1000 := by
      have hmax : ipListParseBits addr ≤ 128 := by
        unfold ipListParseBits
        split <;> decide
      omega
    have htrim : trimmed (ipListParseFormat addr ++ '/' :: natText bits) = ipListParseFormat addr ++ '/' :: natText bits := strip_eq_self hsolid'
    rw [ipListParseCidr, if_neg hhost, ipListParseNetwork, htrim, networkParts, if_neg (hbracket hopen'), (cutAt_slash hslash (natText bits)).2]
    simp only [address_format h, decimal_natText hsmall]
    rw [if_neg (Nat.not_lt.2 hbits)]

end Throne.Scanner.IpListParse
