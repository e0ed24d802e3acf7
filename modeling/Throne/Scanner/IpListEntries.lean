import Throne.Scanner.IpListUnderstood

/-!
# The entries of a list

What `ParseIpListText` collects over the lines of a text: the networks of the words that are addresses, all of
them and no others, and no network twice with one port. With `IpListUnderstood` this says when the core
understands all entries.
-/

namespace Throne.Scanner.IpListParse

open Lib.Texts Core List

/-! ## What is collected -/

/-- The entries so far: of these networks, each network and port once. -/
structure Collected (r : Reading) (cidrs : List Text) : Prop where
  seen : ∀ key, key ∈ r.seen ↔ key ∈ r.result.entries.map fun e => seenKey e.cidr e.port
  nodup : (r.result.entries.map fun e => seenKey e.cidr e.port).Nodup
  mem : ∀ cidr, cidr ∈ r.result.entries.map (·.cidr) ↔ cidr ∈ cidrs

/-- A network and its port are read back from their key. -/
theorem seenKey_cidr {cidr cidr' : Text} {port port' : Int} (h : seenKey cidr port = seenKey cidr' port') : cidr = cidr' := by
  have hsolid (n : Int) : ∀ c ∈ (intText n).reverse, c ≠ ' ' := by
    intro c hc
    rcases mem_intText (mem_reverse.1 hc) with rfl | hdigit
    · decide
    · rintro rfl
      cases hdigit
  have hkey (text : Text) (n : Int) : cutAt " ".toList (seenKey text n).reverse = some ((intText n).reverse, text.reverse) := by
    have hcut := cutAt_append " ".toList ' ' [] rfl _ (hsolid n) (" ".toList ++ text.reverse)
    rw [cutAt_here (by decide) text.reverse] at hcut
    rw [seenKey, reverse_append, reverse_cons, append_assoc]
    simpa using hcut
  have hparts := hkey cidr port
  rw [h, hkey cidr' port', Option.some.injEq, Prod.mk.injEq] at hparts
  exact (reverse_inj.1 hparts.2).symm

section Collected

variable {r : Reading} {cidrs : List Text}

/-- Nothing else is in the way. -/
theorem Collected.same {r' : Reading} (h : Collected r cidrs) (hseen : r'.seen = r.seen)
    (hentries : r'.result.entries = r.result.entries) : Collected r' cidrs := by
  refine ⟨?_, ?_, ?_⟩
  · rw [hseen, hentries]
    exact h.seen
  · rw [hentries]
    exact h.nodup
  · rw [hentries]
    exact h.mem

theorem Collected.reject (h : Collected r cidrs) (token : Text) : Collected (reject r token) cidrs := h.same rfl rfl

theorem Collected.rejectAll (tokens : List IpListParseToken) (h : Collected r cidrs) :
    Collected (tokens.foldl (fun r token => IpListParse.reject r token.text) r) cidrs := by
  induction tokens generalizing r with
  | nil => exact h
  | cons token rest ih => exact ih (h.reject token.text)

theorem Collected.addCidr (h : Collected r cidrs) (port : Int) (cidr : Text) : Collected (addCidr port r cidr) (cidrs ++ [cidr]) := by
  unfold IpListParse.addCidr
  split
  · next hold =>
    -- an entry with this network is there
    refine ⟨h.seen, h.nodup, fun c => ?_⟩
    obtain ⟨e, he, hkey⟩ := mem_map.1 ((h.seen _).1 hold)
    have hcidr : cidr ∈ cidrs := (h.mem cidr).1 (mem_map.2 ⟨e, he, seenKey_cidr hkey⟩)
    rw [mem_append, mem_singleton]
    show c ∈ r.result.entries.map (·.cidr) ↔ _
    rw [h.mem c]
    constructor
    · exact .inl
    · rintro (hc | rfl)
      · exact hc
      · exact hcidr
  · next hnew =>
    refine ⟨fun key => ?_, ?_, fun c => ?_⟩
    · show key ∈ seenKey cidr port :: r.seen ↔ key ∈ (r.result.entries ++ [IpListEntry.mk cidr port 0]).map fun e => seenKey e.cidr e.port
      rw [mem_cons, h.seen key, map_append, mem_append, map_singleton, mem_singleton, or_comm]
    · show ((r.result.entries ++ [IpListEntry.mk cidr port 0]).map fun e => seenKey e.cidr e.port).Nodup
      rw [map_append, map_singleton, nodup_append]
      refine ⟨h.nodup, nodup_singleton _, ?_⟩
      intro a ha b hb heq
      rw [mem_singleton.1 hb] at heq
      rw [h.seen, ← heq] at hnew
      exact hnew ha
    · show c ∈ (r.result.entries ++ [IpListEntry.mk cidr port 0]).map (·.cidr) ↔ _
      rw [map_append, mem_append, mem_append, h.mem c, map_singleton]

theorem Collected.add (h : Collected r cidrs) (defaultPort port : Int) (more : List Text) :
    Collected (add defaultPort r more port) (cidrs ++ more) := by
  unfold IpListParse.add
  induction more generalizing r cidrs with
  | nil =>
    rw [append_nil]
    exact h
  | cons cidr rest ih =>
    have hrest := ih (h.addCidr (entryPort defaultPort port) cidr)
    rw [append_assoc] at hrest
    exact hrest

end Collected

/-! ## Lines -/

/-- The networks of a word of a line. -/
def tokenCidrs (token : IpListParseToken) : List Text := if token.kind = .address then token.cidrs else []

section Lines

variable {r : Reading} {cidrs : List Text}

/-- A port that is consumed is no address. -/
theorem Collected.addTokens (defaultPort : Int) (fields : List Text) (tabular : Bool) (tokens : List IpListParseToken) (consumed : Bool)
    (hconsumed : consumed = true → ∀ token ∈ tokens.head?, token.kind ≠ .address) (h : Collected r cidrs) :
    Collected (addTokens defaultPort fields tabular consumed tokens r) (cidrs ++ tokens.flatMap tokenCidrs) := by
  induction tokens generalizing r cidrs consumed with
  | nil =>
    rw [flatMap_nil, append_nil]
    cases consumed <;> exact h
  | cons token rest ih =>
    have hfalse : (false : Bool) = true → ∀ t ∈ rest.head?, t.kind ≠ .address := nofun
    rw [flatMap_cons]
    cases consumed with
    | true =>
      have hnone : tokenCidrs token = [] := if_neg (hconsumed rfl token rfl)
      rw [hnone, nil_append]
      exact ih false hfalse h
    | false =>
      unfold IpListParse.addTokens
      split
      · next hkind =>
        have hall : tokenCidrs token = token.cidrs := if_pos hkind
        rw [hall, ← append_assoc]
        split
        · exact ih false hfalse (h.add _ _ _)
        · split
          · next hnext =>
            apply ih true _ (h.add _ _ _)
            intro _ t ht hkind'
            have hport := hnext.2
            rw [Option.mem_def.1 ht, Option.map_some, hkind'] at hport
            cases hport
          · exact ih false hfalse (h.add _ _ _)
      · next hkind =>
        have hnone : tokenCidrs token = [] := if_neg (by rw [hkind]; decide)
        rw [hnone, nil_append]
        apply ih false hfalse
        split
        · exact h
        · exact h.reject _
      · next hkind =>
        have hnone : tokenCidrs token = [] := if_neg (by rw [hkind]; decide)
        rw [hnone, nil_append]
        apply ih false hfalse
        split
        · exact h.reject _
        · exact h

variable (foldCase : Char → Char)

theorem Collected.noAddress (line : Text) (fields : List Text) (tokens : List IpListParseToken) (tabular : Bool)
    (h : Collected r cidrs) : Collected (noAddress foldCase r line fields tokens tabular) cidrs := by
  simp only [IpListParse.noAddress]
  split
  · exact h.same rfl rfl
  · have hfirst : Collected { r with firstContentLine := false } cidrs := h.same rfl rfl
    split
    · exact hfirst.rejectAll _
    · split
      · exact hfirst.rejectAll _
      · exact hfirst.reject line

/-- The networks of a line. -/
def lineCidrs (raw : Text) : List Text :=
  match contentLine raw with
  | none => []
  | some line => (lineTokens line).flatMap tokenCidrs

theorem Collected.readLine (defaultPort : Int) (raw : Text) (h : Collected r cidrs) :
    Collected (readLine foldCase defaultPort r raw) (cidrs ++ lineCidrs raw) := by
  unfold IpListParse.readLine lineCidrs
  cases contentLine raw with
  | none =>
    rw [append_nil]
    exact h
  | some line =>
    simp only
    split
    · next hempty =>
      rw [List.isEmpty_iff.1 hempty, flatMap_nil, append_nil]
      exact h
    · split
      · next hnone =>
        have hnothing : (lineTokens line).flatMap tokenCidrs = [] := by
          rw [flatMap_eq_nil_iff]
          intro token htoken
          exact if_neg (of_decide_eq_true (all_eq_true.1 hnone token htoken))
        rw [hnothing, append_nil]
        exact h.noAddress foldCase _ _ _ _
      · have hfirst : Collected { r with firstContentLine := false } cidrs := h.same rfl rfl
        exact hfirst.addTokens _ _ _ _ false nofun

theorem Collected.readLines (defaultPort : Int) (lines : List Text) (h : Collected r cidrs) :
    Collected (lines.foldl (IpListParse.readLine foldCase defaultPort) r) (cidrs ++ lines.flatMap lineCidrs) := by
  induction lines generalizing r cidrs with
  | nil =>
    rw [flatMap_nil, append_nil]
    exact h
  | cons raw rest ih =>
    have hrest := ih (h.readLine foldCase defaultPort raw)
    rw [append_assoc] at hrest
    exact hrest

end Lines

/-! ## The words of a text -/

/-- The words of all lines, without comments. -/
def listWords (content : Text) : List Text :=
  (rawLines content).flatMap fun raw =>
    match contentLine raw with
    | none => []
    | some line => (lineWords line).map Prod.fst

theorem mem_tokenCidrs {word : Text} {field : Nat} {cidr : Text} : cidr ∈ tokenCidrs (tokenOf word field) ↔
    ∃ cidrs port, ipListParseAddressToken word = some (cidrs, port) ∧ cidr ∈ cidrs := by
  unfold tokenOf
  cases haddress : ipListParseAddressToken word with
  | some parsed =>
    obtain ⟨cidrs, port⟩ := parsed
    constructor
    · exact fun h => ⟨cidrs, port, rfl, h⟩
    · rintro ⟨_, _, heq, h⟩
      obtain ⟨rfl, rfl⟩ := Prod.mk.inj (Option.some.inj heq)
      exact h
  | none =>
    constructor
    · intro h
      cases hport : ipListParsePort word with
      | some port | none =>
        rw [hport] at h
        cases h
    · rintro ⟨_, _, heq, -⟩
      cases heq

/-- The networks of the entries are those of the words that are addresses. -/
theorem mem_entries (foldCase : Char → Char) (content : Text) (defaultPort : Int) (cidr : Text) :
    cidr ∈ (ParseIpListText foldCase content defaultPort).entries.map (·.cidr) ↔
    ∃ word ∈ listWords content, ∃ cidrs port, ipListParseAddressToken word = some (cidrs, port) ∧ cidr ∈ cidrs := by
  have hstart : Collected Reading.start [] := ⟨fun _ => Iff.rfl, nodup_nil, fun _ => Iff.rfl⟩
  have hall := (hstart.readLines foldCase (checkedPort defaultPort) (rawLines content)).mem cidr
  rw [nil_append] at hall
  refine hall.trans ?_
  rw [listWords, mem_flatMap]
  constructor
  · rintro ⟨raw, hraw, hcidr⟩
    unfold lineCidrs at hcidr
    cases hline : contentLine raw with
    | none =>
      rw [hline] at hcidr
      cases hcidr
    | some line =>
      rw [hline] at hcidr
      obtain ⟨token, htoken, hmem⟩ := mem_flatMap.1 hcidr
      obtain ⟨word, hword, rfl⟩ := mem_map.1 htoken
      refine ⟨word.1, mem_flatMap.2 ⟨raw, hraw, ?_⟩, mem_tokenCidrs.1 hmem⟩
      rw [hline]
      exact mem_map_of_mem hword
  · rintro ⟨word, hword, hmem⟩
    obtain ⟨raw, hraw, hin⟩ := mem_flatMap.1 hword
    refine ⟨raw, hraw, ?_⟩
    unfold lineCidrs
    cases hline : contentLine raw with
    | none =>
      rw [hline] at hin
      cases hin
    | some line =>
      rw [hline] at hin
      obtain ⟨pair, hpair, rfl⟩ := mem_map.1 hin
      exact mem_flatMap.2 ⟨tokenOf pair.1 pair.2, mem_map_of_mem hpair, mem_tokenCidrs.2 hmem⟩

theorem entries_nodup (foldCase : Char → Char) (content : Text) (defaultPort : Int) :
    ((ParseIpListText foldCase content defaultPort).entries.map fun e => (e.cidr, e.port)).Nodup := by
  have hstart : Collected Reading.start [] := ⟨fun _ => Iff.rfl, nodup_nil, fun _ => Iff.rfl⟩
  have hall := (hstart.readLines foldCase (checkedPort defaultPort) (rawLines content)).nodup
  apply List.Nodup.of_map (fun entry : Text × Int => seenKey entry.1 entry.2)
  rw [map_map]
  exact hall

/-! ## Entries from networks -/

theorem entriesFromCidrs_spec (defaultPort : Int) (texts : List Text) (entries : List IpListEntry)
    (h : ∀ e ∈ entries, ∃ addr bits, Canonical addr bits ∧ e.cidr = ipListParseCidr addr bits) (hnodup : (entries.map (·.cidr)).Nodup) :
    (∀ e ∈ texts.foldl (addEntry defaultPort) entries, ∃ addr bits, Canonical addr bits ∧
    e.cidr = ipListParseCidr addr bits) ∧ ((texts.foldl (addEntry defaultPort) entries).map (·.cidr)).Nodup := by
  induction texts generalizing entries with
  | nil => exact ⟨h, hnodup⟩
  | cons text rest ih =>
    rw [foldl_cons]
    by_cases hskip : NormalizeCidr text = [] ∨ NormalizeCidr text ∈ entries.map (·.cidr)
    · have hsame : addEntry defaultPort entries text = entries := if_pos hskip
      rw [hsame]
      exact ih entries h hnodup
    · have hmore : addEntry defaultPort entries text = entries ++ [⟨NormalizeCidr text, defaultPort, 0⟩] :=
        if_neg hskip
      rw [hmore]
      apply ih
      · intro e he
        rcases mem_append.1 he with hold | hnew
        · exact h e hold
        · rw [mem_singleton.1 hnew]
          exact normalize_spec fun hnil => hskip (.inl hnil)
      · rw [map_append, map_singleton, nodup_append]
        refine ⟨hnodup, nodup_singleton _, ?_⟩
        intro a ha b hb heq
        rw [mem_singleton.1 hb] at heq
        rw [heq] at ha
        exact hskip (.inr ha)

/-! ## When the core understands the entries -/

/-- **Entries of a text.** The core understands every entry of a text exactly if no word of it is a range that
crosses the mapped IPv4 addresses; no two entries have the same network and port. What `EntriesFromCidrs`
makes is always understood, and no network is in it twice. -/
theorem entries_understood_iff {net : Netip} (hnet : Documented net) (foldCase : Char → Char) (content : Text)
    (defaultPort : Int) (texts : List Text) : (((∀ e ∈ (ParseIpListText foldCase content defaultPort).entries, Understood net e.cidr) ∧
    ((ParseIpListText foldCase content defaultPort).entries.map fun e => (e.cidr, e.port)).Nodup) ↔
    ∀ word ∈ listWords content, CrossesMapped word = false) ∧ (∀ e ∈ EntriesFromCidrs texts defaultPort, Understood net e.cidr) ∧
    ((EntriesFromCidrs texts defaultPort).map fun e => (e.cidr, e.port)).Nodup := by
  refine ⟨?_, ?_, ?_⟩
  · constructor
    · rintro ⟨hall, -⟩ word hword
      by_contra hcross
      -- the network of all mapped addresses is an entry, and no fixed point
      obtain ⟨cidrs, port, htoken, hmem⟩ := token_crosses (Bool.not_eq_false _ ▸ hcross)
      have hentry := (mem_entries foldCase content defaultPort mappedNetwork).2 ⟨word, hword, cidrs, port, htoken, hmem⟩
      obtain ⟨e, he, hcidr⟩ := mem_map.1 hentry
      have hfixed := (hall e he).1
      rw [hcidr, mappedNetwork_refused] at hfixed
      cases hfixed
    · intro hwords
      refine ⟨fun e he => ?_, entries_nodup foldCase content defaultPort⟩
      obtain ⟨word, hword, cidrs, port, htoken, hmem⟩ :=
        (mem_entries foldCase content defaultPort e.cidr).1 (mem_map_of_mem he)
      obtain ⟨addr, bits, hcanonical, hcidr⟩ := token_canonical htoken (hwords word hword) e.cidr hmem
      rw [hcidr]
      exact understood_canonical hnet hcanonical
  · intro e he
    obtain ⟨addr, bits, hcanonical, hcidr⟩ := (entriesFromCidrs_spec (checkedPort defaultPort) texts [] nofun nodup_nil).1 e he
    rw [hcidr]
    exact understood_canonical hnet hcanonical
  · have hnodup := (entriesFromCidrs_spec (checkedPort defaultPort) texts [] nofun nodup_nil).2
    apply List.Nodup.of_map (fun entry : Text × Int => entry.1)
    rw [map_map]
    exact hnodup

variable {text : Text}

section Examples

/-- Parsers that read as the list does, which is without zones. -/
def readNet : Netip where
  parseAddr text := (ipListParseAddress text.toList).map fun addr => (addr.toAddr, "")
  parsePrefix text :=
    match cutAt "/".toList text.toList with
    | none => none
    | some (front, bitsText) =>
      match ipListParseAddress front, ipListParseDecimal bitsText 3 with
      | some addr, some bits => if hle : bits ≤ addr.toAddr.bitLen then some ⟨addr.toAddr, bits, hle⟩ else none
      | _, _ => none

theorem readNet_parseAddr (text : Text) : readNet.parseAddr (String.ofList text) = (ipListParseAddress text).map fun addr => (addr.toAddr, "") := by
  unfold readNet
  simp only [String.toList_ofList]

theorem readNet_dotted {a b c d : Nat} (ha : a < 256) (hb : b < 256) (hc : c < 256) (hd : d < 256) :
    readNet.parseAddr (String.ofList (dotted a b c d)) = some (.v4 (BitVec.ofNat 32 (((a * 256 + b) * 256 + c) * 256 + d)), "") := by
  rw [readNet_parseAddr, address_dotted ha hb hc hd, Option.map_some, IpListParseAddr.toAddr,
    if_neg Bool.false_ne_true, IpListParseAddr.value, Nat.zero_mul, Nat.zero_add]

theorem readNet_written {groups : List Nat} (h : Written groups text) (hlength : groups.length = 8)
    (hlt : ∀ g ∈ groups, g < 65536) : readNet.parseAddr (String.ofList text) =
    some (.v6 (BitVec.ofNat 128 (groups.foldl (fun n g => n * 65536 + g) 0)), "") := by
  rw [readNet_parseAddr, address_written h hlength hlt, fold_groups hlength hlt, Option.map_some,
    IpListParseAddr.toAddr, if_pos rfl, IpListParseAddr.value]

theorem readNet_bare (h : '/' ∉ text) : readNet.parsePrefix (String.ofList text) = none := by
  unfold readNet
  simp only [String.toList_ofList, (cutAt_slash h []).1]

theorem readNet_withBits {addr : Addr} {bits : Nat} (hle : bits ≤ addr.bitLen) (hslash : '/' ∉ text)
    (haddr : readNet.parseAddr (String.ofList text) = some (addr, "")) :
    readNet.parsePrefix (String.ofList (text ++ '/' :: natText bits)) = some ⟨addr, bits, hle⟩ := by
  rw [readNet_parseAddr] at haddr
  obtain ⟨parsed, hparsed, hpair⟩ := Option.map_eq_some_iff.1 haddr
  cases hpair
  have hsmall : bits < 1000 := Nat.lt_of_le_of_lt (Prefix.mk parsed.toAddr bits hle).bits_le_128 (by decide)
  unfold readNet
  simp only [String.toList_ofList, (cutAt_slash hslash (natText bits)).2, hparsed, decimal_natText hsmall]
  rw [dif_pos hle]

theorem readNet_documented : Documented readNet where
  dotted := readNet_dotted
  written := readNet_written
  bare := readNet_bare
  withBits := readNet_withBits

def someList : Text := "10.0.0.1 - 10.0.0.6 443\n[2001:db8::1]:80 # home".toList

theorem entries_understood_some : (ParseIpListText Char.toLower someList 0).entries.length = 5 ∧
    ∀ e ∈ (ParseIpListText Char.toLower someList 0).entries, Understood readNet e.cidr := by
  have hall := (entries_understood_iff readNet_documented Char.toLower someList 0 []).1.2 (by decide)
  exact ⟨by decide, hall.1⟩

/-- A range that begins right before the mapped addresses and ends right behind them. -/
def crossingList : Text := "::fffe:ffff:ffff-::1:0:0:0".toList

/-- Its second entry is the network of all mapped addresses, which `NormalizeCidr` refuses. -/
theorem entries_refused : (ParseIpListText Char.toLower crossingList 0).entries.map (·.cidr) =
    ["::fffe:ffff:ffff".toList, "::ffff:0:0/96".toList, "::1:0:0:0".toList] ∧
    ¬∀ e ∈ (ParseIpListText Char.toLower crossingList 0).entries, NormalizeCidr e.cidr = e.cidr := by
  have hcidrs : (ParseIpListText Char.toLower crossingList 0).entries.map (·.cidr) =
      ["::fffe:ffff:ffff".toList, "::ffff:0:0/96".toList, "::1:0:0:0".toList] := by decide
  refine ⟨hcidrs, fun hall => ?_⟩
  have hmem : mappedNetwork ∈ (ParseIpListText Char.toLower crossingList 0).entries.map (·.cidr) := by
    rw [hcidrs]
    exact mem_cons_of_mem _ mem_cons_self
  obtain ⟨e, he, hcidr⟩ := mem_map.1 hmem
  have hfixed := hall e he
  rw [hcidr, mappedNetwork_refused] at hfixed
  cases hfixed

end Examples

end Throne.Scanner.IpListParse
