import Throne.Scanner.IpListEntries

/-!
# An exported list is read back

`FormatTarget`, `FormatEntry` and `IsHostCidr` of `src/src/scanner/IpListParse.cpp`: how the entries of a list are
written, one on a line, when they are copied or saved. A host has its port behind a colon, an IPv6 host in
brackets; the port of a network is a word of its own.

The reader guesses what a line is. No line of an export is taken for a header, a comment, a range or columns
(`readLine_entry`), so a list of networks comes back with its ports (`export_read`). What a scan measured is not
written.
-/

namespace Throne.Scanner.IpListParse

open Lib.Texts Database.Routes List

/-! ## What is written -/

def FormatTarget (address : Text) (port : Int) : Text :=
  if port ≤ 0 then address
  else if address.contains ':' then '[' :: address ++ "]:".toList ++ intText port
  else address ++ ':' :: intText port

def IsHostCidr (cidr : Text) : Bool :=
  if cidr = [] then false
  else
    match cutAt "/".toList cidr with
    | none => true
    | some (front, bits) => decide (bits = if front.contains ':' then "128".toList else "32".toList)

def FormatEntry (entry : IpListEntry) : Text :=
  if IsHostCidr entry.cidr then
    match cutAt "/".toList entry.cidr with
    | none => FormatTarget entry.cidr entry.port
    | some (front, _) => FormatTarget front entry.port
  else if entry.port ≤ 0 then entry.cidr
  else entry.cidr ++ ' ' :: intText entry.port

/-- The text on the clipboard: no newline behind the last entry. -/
def copyResults (entries : List IpListEntry) : Text := ['\n'].intercalate (entries.map FormatEntry)

/-- The file: a newline behind every entry. -/
def exportResults (entries : List IpListEntry) : Text := entries.flatMap fun entry => FormatEntry entry ++ ['\n']

/-! ## Colons and ports -/

variable {port : Nat}

theorem port_natText (h : port ≤ 65535) : ipListParsePort (natText port) = some (port : Int) := by
  rw [ipListParsePort, decimal_written (by decide) (by omega)]
  simp only
  rw [if_neg (Nat.not_lt.2 h)]

theorem count_hexText (group : Nat) : (hexText group).count ':' = 0 := by
  rw [count_eq_zero]
  exact fun hin => ne_of_mem_hexText hin (by decide) rfl

theorem count_joinGroups (first : Nat) (rest : List Nat) : (joinGroups (first :: rest)).count ':' = rest.length := by
  induction rest generalizing first with
  | nil =>
    rw [joinGroups_singleton, count_hexText]
    rfl
  | cons next rest ih =>
    rw [joinGroups_cons, count_append, count_cons_self, ih next, count_hexText, length_cons, Nat.zero_add]

/-- However it is written, an IPv6 address has more than the one colon in front of a port. -/
theorem two_le_count_written {groups : List Nat} {text : Text} (h : Written groups text) (hlength : groups.length = 8) : 2 ≤ text.count ':' := by
  cases h with
  | all =>
    cases groups with
    | nil => cases hlength
    | cons first rest =>
      rw [count_joinGroups]
      rw [length_cons] at hlength
      omega
  | gap head tail zeros =>
    rw [count_append, count_append]
    have hgap : "::".toList.count ':' = 2 := by decide
    omega

/-- The colons of an address. -/
theorem count_format {addr : IpListParseAddr} (h : addr.Valid) :
    if addr.v6 then 2 ≤ (ipListParseFormat addr).count ':' else (ipListParseFormat addr).count ':' = 0 := by
  obtain ⟨v6, hi, lo⟩ := addr
  cases v6 with
  | false =>
    obtain ⟨hhi, hlo⟩ : hi = 0 ∧ lo < 2 ^ 32 := h
    obtain ⟨a, b, c, d, -, -, -, -, -, hformat⟩ := format_v4 hlo
    show (ipListParseFormat ⟨false, hi, lo⟩).count ':' = 0
    rw [hhi, hformat, count_eq_zero]
    intro hin
    rcases mem_dotted hin with hdot | hdigit
    · cases hdot
    · cases hdigit
  | true => exact two_le_count_written (written_format _) rfl

/-! ## Words and lines -/

/-- The signs of a written word: those of an address, a slash and brackets. -/
def wordChar (c : Char) : Bool := formatChar c || c == '/' || c == '[' || c == ']'

/-- A word as the writer leaves it. -/
def WrittenWord (word : Text) : Prop := word ≠ [] ∧ ∀ c ∈ word, wordChar c = true

variable {c : Char}

theorem wordChar_range (h : wordChar c = true) : 33 ≤ c.toNat ∧ c.toNat < 127 := by
  simp only [wordChar, Bool.or_eq_true, beq_iff_eq] at h
  rcases h with ((hformat | rfl) | rfl) | rfl
  · exact formatChar_range hformat
  all_goals decide

theorem isSpace_of_wordChar (h : wordChar c = true) : isSpace c = false := by
  have hrange := wordChar_range h
  simp only [isSpace, Bool.or_eq_false_iff, Bool.and_eq_false_iff, beq_eq_false_iff_ne, decide_eq_false_iff_not]
  omega

variable {d : Char}

/-- No sign of a word means something else to the reader. -/
theorem ne_of_wordChar (h : wordChar c = true) (hd : wordChar d = false) : c ≠ d := by
  rintro rfl
  rw [h] at hd
  exact Bool.true_eq_false_eq_False hd

theorem wordChar_of_format (h : formatChar c = true) : wordChar c = true := by
  rw [wordChar, h]
  rfl

theorem isDash_of_wordChar (h : wordChar c = true) : isDash c = false := by
  have hrange := wordChar_range h
  have hhyphen : c ≠ '-' := ne_of_wordChar h (by decide)
  rw [isDash, Bool.or_eq_false_iff]
  refine ⟨beq_eq_false_iff_ne.2 hhyphen, ?_⟩
  rw [beq_eq_false_iff_ne]
  omega

theorem isSeparator_of_wordChar (h : wordChar c = true) : ipListParseIsSeparator c = false := by
  simp only [ipListParseIsSeparator, Bool.or_eq_false_iff, beq_eq_false_iff_ne]
  exact ⟨⟨⟨ne_of_wordChar h (by decide), ne_of_wordChar h (by decide)⟩, ne_of_wordChar h (by decide)⟩, ne_of_wordChar h (by decide)⟩

variable {word : Text}

theorem WrittenWord.isWord (h : WrittenWord word) : IsWord isSpace word :=
  ⟨h.1, fun c hc => isSpace_of_wordChar (h.2 c hc)⟩

/-- There are no quotes to take off. -/
theorem WrittenWord.unquote (h : WrittenWord word) : ipListParseUnquote word = word := by
  have htrim : trimmed word = word := strip_eq_self h.isWord.2
  have hquote : ∀ c ∈ word, (c == '"' || c == '\'') = false := by
    intro c hc
    rw [Bool.or_eq_false_iff]
    exact ⟨beq_eq_false_iff_ne.2 (ne_of_wordChar (h.2 c hc) (by decide)), beq_eq_false_iff_ne.2 (ne_of_wordChar (h.2 c hc) (by decide))⟩
  rw [ipListParseUnquote, htrim, strip_eq_self hquote, htrim]

/-- A line of one word, or of two with a blank between them. -/
inductive WrittenLine : Text → List Text → Prop
  | one {word : Text} : WrittenWord word → WrittenLine word [word]
  | two {first last : Text} : WrittenWord first → WrittenWord last →
      WrittenLine (first ++ [' '] ++ last) [first, last]

section Lines

variable {line : Text} {ws : List Text}

section

variable (h : WrittenLine line ws)

include h

theorem WrittenLine.mem (hword : word ∈ ws) : WrittenWord word := by
  cases h with
  | one hone =>
    rw [mem_singleton.1 hword]
    exact hone
  | two hfirst hlast =>
    simp only [mem_cons, not_mem_nil, or_false] at hword
    rcases hword with rfl | rfl
    · exact hfirst
    · exact hlast

theorem WrittenLine.chars (hc : c ∈ line) : wordChar c = true ∨ c = ' ' := by
  cases h with
  | one hone => exact .inl (hone.2 c hc)
  | two hfirst hlast =>
    rcases mem_append.1 hc with hfront | hback
    · rcases mem_append.1 hfront with hin | hblank
      · exact .inl (hfirst.2 c hin)
      · exact .inr (mem_singleton.1 hblank)
    · exact .inl (hlast.2 c hback)

theorem WrittenLine.ne_of_mem (hc : c ∈ line) (hd : wordChar d = false) (hblank : d ≠ ' ') : c ≠ d := by
  rcases h.chars hc with hchar | rfl
  · exact ne_of_wordChar hchar hd
  · exact hblank.symm

theorem WrittenLine.ne_nil : line ≠ [] := by
  cases h with
  | one hone => exact hone.1
  | two => simp

/-- Nothing of a written line is left out. -/
theorem WrittenLine.content (hslashes : cutAt "//".toList line = none) : contentLine line = some line := by
  have hhash : line.takeWhile (· ≠ '#') = line := by
    rw [takeWhile_eq_self_iff]
    intro c hc
    exact decide_eq_true (h.ne_of_mem hc (by decide) (by decide))
  have htrim : trimmed line = line := by
    cases h with
    | one hone => exact strip_eq_self hone.isWord.2
    | two hfirst hlast => exact strip_between hfirst.isWord hlast.isWord [' ']
  have hsemicolon : ¬(line = [] ∨ line.head? = some ';') := by
    rintro (hnil | hhead)
    · exact h.ne_nil hnil
    · exact h.ne_of_mem (mem_of_head? hhead) (by decide) (by decide) rfl
  have hdash : ¬line.any isDash = true := by
    rw [any_eq_true]
    rintro ⟨c, hc, hdash⟩
    rcases h.chars hc with hchar | rfl
    · rw [isDash_of_wordChar hchar] at hdash
      exact Bool.false_ne_true hdash
    · cases hdash
  simp only [contentLine, hhash, hslashes, htrim]
  rw [if_neg hsemicolon, if_neg hdash]

theorem WrittenLine.separated : line.any ipListParseIsSeparator = false := by
  rw [any_eq_false]
  intro c hc
  rcases h.chars hc with hchar | rfl
  · rw [isSeparator_of_wordChar hchar]
    exact Bool.false_ne_true
  · decide

theorem WrittenLine.words : words isSpace line = ws := by
  cases h with
  | one hone => exact words_word hone.isWord
  | @two first last hfirst hlast =>
    rw [append_assoc, singleton_append, words_cons hfirst.isWord (by decide), words_word hlast.isWord]

/-- The words of the line, each a field of its own. -/
theorem WrittenLine.lineWords : lineWords line = ws.zipIdx := by
  have hfields : lineFields line = ws := by
    rw [lineFields, h.separated, ipListParseSplit, if_neg Bool.false_ne_true, h.words]
    calc ws.map ipListParseUnquote = ws.map id := map_congr_left fun word hword => (h.mem hword).unquote
      _ = ws := map_id ws
  have hword : ∀ pair ∈ ws.zipIdx, ((ipListParseSplit pair.1 false).filterMap fun word =>
    let text := ipListParseUnquote word
    if text = [] then none else some (text, pair.2)) = [pair] := by
    intro pair hpair
    have hwritten : WrittenWord pair.1 := h.mem (fst_mem_of_mem_zipIdx hpair)
    rw [ipListParseSplit, if_neg Bool.false_ne_true, words_word hwritten.isWord, filterMap_cons]
    simp only [hwritten.unquote, if_neg hwritten.1, filterMap_nil]
  rw [IpListParse.lineWords, hfields]
  calc ws.zipIdx.flatMap _ = ws.zipIdx.flatMap fun pair => [pair] := flatMap_congr hword
    _ = ws.zipIdx := by simp

end

end Lines

/-! ## Words of an entry -/

section Entry

variable {addr : IpListParseAddr} {bits : Nat}

theorem format_ne_nil (h : addr.Valid) : ipListParseFormat addr ≠ [] := by
  intro hnil
  have hread := address_format h
  have hnone : ipListParseAddress [] = none := by decide
  rw [hnil, hnone] at hread
  cases hread

theorem not_mem_format (h : addr.Valid) (hc : formatChar c = false) : c ∉ ipListParseFormat addr := by
  intro hin
  rw [mem_format h hin] at hc
  exact Bool.true_eq_false_eq_False hc

theorem not_mem_natText {n : Nat} (hc : c.isDigit = false) : c ∉ natText n :=
  fun hin => ne_of_mem_natText hin hc rfl

theorem colon_mem_format (h : addr.Valid) : (ipListParseFormat addr).contains ':' = addr.v6 := by
  have hcount := count_format h
  cases hv6 : addr.v6 with
  | false =>
    rw [hv6, if_neg Bool.false_ne_true, count_eq_zero] at hcount
    exact Bool.eq_false_iff.2 fun hin => hcount (contains_iff_mem.1 hin)
  | true =>
    rw [hv6, if_pos rfl] at hcount
    exact contains_iff_mem.2 (count_pos_iff.1 (by omega))

theorem writtenWord_format (h : addr.Valid) : WrittenWord (ipListParseFormat addr) :=
  ⟨format_ne_nil h, fun _ hc => wordChar_of_format (mem_format h hc)⟩

theorem writtenWord_natText (n : Nat) : WrittenWord (natText n) := by
  refine ⟨?_, fun c hc => wordChar_of_format (formatChar_of_digit (isDigit_of_mem_natText hc))⟩
  rw [natText_eq]
  exact Nat.toDigits_ne_nil

theorem writtenWord_append {front back : Text} (hfront : WrittenWord front) (hc : wordChar c = true)
    (hback : WrittenWord back) : WrittenWord (front ++ c :: back) := by
  refine ⟨fun hnil => hfront.1 (append_eq_nil_iff.1 hnil).1, fun d hd => ?_⟩
  rcases mem_append.1 hd with hin | hin
  · exact hfront.2 d hin
  · rcases mem_cons.1 hin with rfl | hin
    · exact hc
    · exact hback.2 d hin

theorem writtenWord_cidr (h : addr.Valid) : WrittenWord (ipListParseCidr addr bits) := by
  unfold ipListParseCidr
  split
  · exact writtenWord_format h
  · exact writtenWord_append (writtenWord_format h) (by decide) (writtenWord_natText bits)

/-- A word that is no range is the network in it. -/
theorem addressToken_network {network : Text} {port : Int} (h : WrittenWord word)
    (hport : networkPort word = some (network, port)) (hread : ipListParseNetwork network = some (addr, bits)) :
    ipListParseAddressToken word = some ([ipListParseCidr addr bits], port) := by
  have hdash : ¬word.contains '-' = true := by
    intro hin
    exact ne_of_wordChar (h.2 _ (contains_iff_mem.1 hin)) (by decide) rfl
  rw [ipListParseAddressToken, if_neg h.1, if_neg hdash, hport]
  simp only [hread, Option.map_some]

/-- A network on its own. -/
theorem addressToken_cidr (h : Canonical addr bits) :
    ipListParseAddressToken (ipListParseCidr addr bits) = some ([ipListParseCidr addr bits], -1) := by
  have hbracket : (ipListParseCidr addr bits).head? ≠ some '[' := by
    have hfront : (ipListParseFormat addr).head? ≠ some '[' :=
      fun hhead => not_mem_format h.valid (by decide) (mem_of_head? hhead)
    unfold ipListParseCidr
    split
    · exact hfront
    · rw [head?_append_of_ne_nil _ (format_ne_nil h.valid)]
      exact hfront
  have hcount : (ipListParseCidr addr bits).count ':' = (ipListParseFormat addr).count ':' := by
    unfold ipListParseCidr
    split
    · rfl
    · rw [count_append, count_cons_of_ne (by decide), count_eq_zero.2 (not_mem_natText (by decide)), Nat.add_zero]
  have hcolons : (ipListParseCidr addr bits).count ':' ≠ 1 := by
    have hformat := count_format h.valid
    rw [hcount]
    split at hformat <;> omega
  apply addressToken_network (writtenWord_cidr h.valid) _ (normalize_canonical h).1
  rw [networkPort, if_neg hbracket, if_neg hcolons]

/-- A host with its port. -/
theorem addressToken_target (h : Canonical addr bits) (hhost : ipListParseBits addr ≤ bits)
    (hpos : 0 < port) (hport : port ≤ 65535) : WrittenWord (FormatTarget (ipListParseFormat addr) port) ∧
    ipListParseAddressToken (FormatTarget (ipListParseFormat addr) port) = some ([ipListParseCidr addr bits], (port : Int)) := by
  have hcidr : ipListParseCidr addr bits = ipListParseFormat addr := if_pos hhost
  have hread := (normalize_canonical h).1
  have hsome : ¬((port : Int) ≤ 0) := by omega
  have hcount := count_format h.valid
  rw [FormatTarget, if_neg hsome, colon_mem_format h.valid]
  cases hv6 : addr.v6 with
  | false =>
    rw [hv6, if_neg Bool.false_ne_true] at hcount
    rw [if_neg Bool.false_ne_true]
    have hword : WrittenWord (ipListParseFormat addr ++ ':' :: natText port) :=
      writtenWord_append (writtenWord_format h.valid) (by decide) (writtenWord_natText port)
    refine ⟨hword, ?_⟩
    rw [hcidr] at hread
    apply addressToken_network hword _ hread
    have hbracket : (ipListParseFormat addr ++ ':' :: natText port).head? ≠ some '[' := by
      rw [head?_append_of_ne_nil _ (format_ne_nil h.valid)]
      exact fun hhead => not_mem_format h.valid (by decide) (mem_of_head? hhead)
    have hone : (ipListParseFormat addr ++ ':' :: natText port).count ':' = 1 := by
      rw [count_append, hcount, count_cons_self, count_eq_zero.2 (not_mem_natText (by decide))]
    have hcut := (cutAt_char (count_eq_zero.1 hcount) (natText port)).2
    rw [networkPort, if_neg hbracket, if_pos hone, show ":".toList = [':'] from rfl, hcut]
    simp only [port_natText hport, Option.map_some]
  | true =>
    rw [if_pos rfl]
    have hline : '[' :: ipListParseFormat addr ++ "]:".toList ++ intText port = ('[' :: ipListParseFormat addr) ++ ']' :: (':' :: natText port) := by
      rw [append_assoc]
      rfl
    have hopen : WrittenWord ('[' :: ipListParseFormat addr) :=
      ⟨cons_ne_nil _ _, fun c hc => by
        rcases mem_cons.1 hc with rfl | hc
        · decide
        · exact (writtenWord_format h.valid).2 c hc⟩
    have hback : WrittenWord (':' :: natText port) :=
      ⟨cons_ne_nil _ _, fun c hc => by
        rcases mem_cons.1 hc with rfl | hc
        · decide
        · exact (writtenWord_natText port).2 c hc⟩
    have hword := writtenWord_append hopen (show wordChar ']' = true by decide) hback
    have hclose : ']' ∉ '[' :: ipListParseFormat addr := by
      rw [mem_cons, not_or]
      exact ⟨by decide, not_mem_format h.valid (by decide)⟩
    rw [hline]
    refine ⟨hword, ?_⟩
    -- the brackets are taken off again
    have hnetwork : ipListParseNetwork (('[' :: ipListParseFormat addr) ++ [']']) = some (addr, bits) := by
      have hsolid : ∀ c ∈ ('[' :: ipListParseFormat addr) ++ [']'], isSpace c = false := by
        intro c hc
        rcases mem_append.1 hc with hc | hc
        · exact isSpace_of_wordChar (hopen.2 c hc)
        · rw [mem_singleton.1 hc]
          decide
      have htrim : trimmed (('[' :: ipListParseFormat addr) ++ [']']) = ('[' :: ipListParseFormat addr) ++ [']'] := strip_eq_self hsolid
      have hprefix : "[".toList.isPrefixOf (('[' :: ipListParseFormat addr) ++ [']']) = true := rfl
      have hcut := (cutAt_char hclose []).2
      have hslash := (cutAt_char (not_mem_format h.valid (show formatChar '/' = false by decide)) []).1
      rw [ipListParseNetwork, htrim, networkParts, if_pos hprefix, show "]".toList = [']'] from rfl, hcut]
      simp only [drop_succ_cons, drop_zero, show "/".toList = ['/'] from rfl, hslash, address_format h.valid]
      rw [← Nat.le_antisymm h.bits_le hhost, finish_canonical h]
    apply addressToken_network hword _ hnetwork
    have hhead : (('[' :: ipListParseFormat addr) ++ ']' :: (':' :: natText port)).head? = some '[' := rfl
    have hcut := (cutAt_char hclose (':' :: natText port)).2
    rw [networkPort, if_pos hhead, show "]".toList = [']'] from rfl, hcut]
    simp only [port_natText hport, Option.map_some]

/-- A number is a port, no address. -/
theorem tokenOf_port (hport : port ≤ 65535) (field : Nat) : tokenOf (natText port) field = ⟨natText port, field, .port, [], port⟩ := by
  have hword := writtenWord_natText port
  have hdash : ¬(natText port).contains '-' = true :=
    fun hin => not_mem_natText (by decide) (contains_iff_mem.1 hin)
  have hcolon : ¬(natText port).contains ':' = true :=
    fun hin => not_mem_natText (by decide) (contains_iff_mem.1 hin)
  have hopen : (natText port).head? ≠ some '[' :=
    fun hhead => not_mem_natText (by decide) (mem_of_head? hhead)
  have hprefix : ¬"[".toList.isPrefixOf (natText port) = true := by
    intro hyes
    obtain ⟨rest, hrest⟩ := isPrefixOf_iff_prefix.1 hyes
    rw [← hrest] at hopen
    exact hopen rfl
  have hcount : (natText port).count ':' ≠ 1 := by
    rw [count_eq_zero.2 (not_mem_natText (by decide))]
    decide
  have htrim : trimmed (natText port) = natText port := strip_eq_self hword.isWord.2
  have hslash := (cutAt_char (not_mem_natText (n := port) (show '/'.isDigit = false by decide)) []).1
  have hv4 : ipListParseV4 (natText port) = none := by
    have hdot : '.' ∉ natText port := not_mem_natText (by decide)
    rw [ipListParseV4, splitOn_eq_singleton hdot, map_cons, map_nil]
    cases ipListParseOctet (natText port) <;> rfl
  have hnone : ipListParseAddressToken (natText port) = none := by
    rw [ipListParseAddressToken, if_neg hword.1, if_neg hdash, networkPort, if_neg hopen, if_neg hcount]
    simp only [ipListParseNetwork, htrim, networkParts, if_neg hprefix, show "/".toList = ['/'] from rfl, hslash,
      ipListParseAddress, if_neg hcolon, hv4, Option.map_none]
  rw [tokenOf, hnone, port_natText hport]

end Entry

/-! ## The line of an entry -/

variable {e : IpListEntry}

section Line

variable {addr : IpListParseAddr} {bits : Nat}

/-- A second slash would make a comment of what is behind it. -/
theorem no_comment {front back : Text} (hfront : '/' ∉ front) (hback : '/' ∉ back) :
    cutAt "//".toList front = none ∧ cutAt "//".toList (front ++ '/' :: back) = none := by
  have hsolid {text : Text} (h : '/' ∉ text) : ∀ c ∈ text, c ≠ '/' := by
    rintro c hc rfl
    exact h hc
  have hnone {text : Text} (h : '/' ∉ text) : cutAt "//".toList text = none := by
    have hcut := cutAt_append "//".toList '/' ['/'] rfl text (hsolid h) []
    rw [append_nil] at hcut
    rw [hcut]
    rfl
  have hhere : ¬"//".toList.isPrefixOf ('/' :: back) = true := by
    intro hyes
    obtain ⟨rest, hrest⟩ := isPrefixOf_iff_prefix.1 hyes
    apply hback
    rw [← (List.cons.inj hrest).2]
    exact mem_cons_self
  refine ⟨hnone hfront, ?_⟩
  rw [cutAt_append "//".toList '/' ['/'] rfl front (hsolid hfront), cutAt, if_neg hhere, hnone hback]
  rfl

theorem natText_inj {n m : Nat} (h : natText n = natText m) : n = m := by
  rw [← decimalValue_natText n, h, decimalValue_natText]

section

variable (h : addr.Valid)

include h

/-- A canonical network has a slash unless it is a host. -/
theorem cutAt_cidr : cutAt "/".toList (ipListParseCidr addr bits) =
    if ipListParseBits addr ≤ bits then none else some (ipListParseFormat addr, natText bits) := by
  have hslash := cutAt_char (not_mem_format h (show formatChar '/' = false by decide)) (natText bits)
  unfold ipListParseCidr
  split
  · exact hslash.1
  · exact hslash.2

theorem isHostCidr_cidr : IsHostCidr (ipListParseCidr addr bits) = decide (ipListParseBits addr ≤ bits) := by
  rw [IsHostCidr, if_neg (writtenWord_cidr h).1, cutAt_cidr h]
  by_cases hhost : ipListParseBits addr ≤ bits
  · rw [if_pos hhost, decide_eq_true hhost]
  · rw [if_neg hhost, decide_eq_false hhost]
    simp only [colon_mem_format h]
    apply decide_eq_false
    intro hfull
    unfold ipListParseBits at hhost
    split at hfull
    · next hv6 =>
      rw [natText_inj (show natText bits = natText 128 from hfull), if_pos hv6] at hhost
      exact hhost (Nat.le_refl _)
    · next hv4 =>
      rw [natText_inj (show natText bits = natText 32 from hfull), if_neg hv4] at hhost
      exact hhost (Nat.le_refl _)

/-- The lines of an entry: without a port, a host with a port, a network with a port. -/
theorem formatEntry_bare (latency : Int) : FormatEntry ⟨ipListParseCidr addr bits, 0, latency⟩ = ipListParseCidr addr bits := by
  simp only [FormatEntry, isHostCidr_cidr h, cutAt_cidr h, decide_eq_true_eq]
  split <;> rfl

theorem formatEntry_host (hhost : ipListParseBits addr ≤ bits) (port latency : Int) :
    FormatEntry ⟨ipListParseCidr addr bits, port, latency⟩ = FormatTarget (ipListParseFormat addr) port := by
  simp only [FormatEntry, isHostCidr_cidr h, cutAt_cidr h, decide_eq_true_eq, if_pos hhost]
  rw [ipListParseCidr, if_pos hhost]

theorem formatEntry_network (hnetwork : ¬ipListParseBits addr ≤ bits) (hpos : 0 < port)
    (latency : Int) : FormatEntry ⟨ipListParseCidr addr bits, port, latency⟩ = ipListParseCidr addr bits ++ [' '] ++ natText port := by
  have hsome : ¬((port : Int) ≤ 0) := by omega
  simp only [FormatEntry, isHostCidr_cidr h, decide_eq_true_eq, if_neg hnetwork, if_neg hsome]
  rw [append_assoc]
  rfl

theorem cidr_no_comment {back : Text} (hback : '/' ∉ back) : cutAt "//".toList (ipListParseCidr addr bits ++ back) = none := by
  have hslash : '/' ∉ ipListParseFormat addr := not_mem_format h (by decide)
  have hdigits : '/' ∉ natText bits := not_mem_natText (by decide)
  unfold ipListParseCidr
  split
  · refine (@no_comment _ back ?_ hback).1
    rw [mem_append, not_or]
    exact ⟨hslash, hback⟩
  · rw [append_assoc, cons_append]
    refine (no_comment hslash ?_).2
    rw [mem_append, not_or]
    exact ⟨hdigits, hback⟩

theorem target_no_comment {port : Nat} (hpos : 0 < port) : cutAt "//".toList (FormatTarget (ipListParseFormat addr) port) = none := by
  have hslash : '/' ∉ ipListParseFormat addr := not_mem_format h (by decide)
  have hdigits : '/' ∉ natText port := not_mem_natText (by decide)
  have hnone : '/' ∉ FormatTarget (ipListParseFormat addr) port := by
    rw [FormatTarget, if_neg (by omega)]
    split
    · rw [mem_append, mem_append, mem_cons, not_or, not_or, not_or]
      exact ⟨⟨⟨by decide, hslash⟩, by decide⟩, hdigits⟩
    · rw [mem_append, mem_cons, not_or, not_or]
      exact ⟨hslash, by decide, hdigits⟩
  exact (@no_comment _ [] hnone not_mem_nil).1

end

/-- The line of an entry: a word that says the network and the port, or a word for each. -/
inductive EntryLine (e : IpListEntry) : Prop
  | one (port : Int) : WrittenWord (FormatEntry e) → cutAt "//".toList (FormatEntry e) = none →
      ipListParseAddressToken (FormatEntry e) = some ([e.cidr], port) → entryPort 0 port = e.port → EntryLine e
  | two (port : Nat) : FormatEntry e = e.cidr ++ [' '] ++ natText port → WrittenWord e.cidr →
      cutAt "//".toList (FormatEntry e) = none → ipListParseAddressToken e.cidr = some ([e.cidr], -1) →
      0 < port → e.port = port ∧ port ≤ 65535 → EntryLine e

theorem entryLine_of_fixed (hfixed : NormalizeCidr e.cidr = e.cidr) (hsome : e.cidr ≠ []) (hport : 0 ≤ e.port ∧ e.port ≤ 65535) : EntryLine e := by
  obtain ⟨cidr, port, latency⟩ := e
  obtain ⟨port, rfl⟩ := Int.eq_ofNat_of_zero_le hport.1
  have hsmall : port ≤ 65535 := Int.ofNat_le.1 hport.2
  obtain ⟨addr, bits, hcanon, hcidr⟩ := normalize_spec (ne_of_eq_of_ne hfixed hsome)
  obtain rfl : cidr = ipListParseCidr addr bits := hfixed.symm.trans hcidr
  have hword : WrittenWord (ipListParseCidr addr bits) := writtenWord_cidr hcanon.valid
  have hnetwork := addressToken_cidr hcanon
  rcases Nat.eq_zero_or_pos port with rfl | hpos
  · have hline : FormatEntry ⟨ipListParseCidr addr bits, 0, latency⟩ = ipListParseCidr addr bits :=
      formatEntry_bare hcanon.valid latency
    have hslashes : cutAt "//".toList (ipListParseCidr addr bits ++ []) = none := cidr_no_comment hcanon.valid not_mem_nil
    rw [append_nil] at hslashes
    rw [← hline] at hword hslashes
    apply EntryLine.one (-1) hword hslashes _ rfl
    show ipListParseAddressToken (FormatEntry ⟨ipListParseCidr addr bits, 0, latency⟩) = _
    rw [hline, hnetwork]
  · by_cases hhost : ipListParseBits addr ≤ bits
    · have hline := formatEntry_host hcanon.valid hhost port latency
      obtain ⟨htarget, htoken⟩ := addressToken_target hcanon hhost hpos hsmall
      have hslashes := target_no_comment hcanon.valid hpos
      rw [← hline] at htarget htoken hslashes
      exact .one port htarget hslashes htoken (if_neg (by omega))
    · have hline := formatEntry_network hcanon.valid hhost hpos latency
      have hback : '/' ∉ [' '] ++ natText port := by
        rw [mem_append, not_or]
        exact ⟨by decide, not_mem_natText (by decide)⟩
      have hslashes : cutAt "//".toList (ipListParseCidr addr bits ++ ([' '] ++ natText port)) = none := cidr_no_comment hcanon.valid hback
      rw [← append_assoc, ← hline] at hslashes
      exact .two port hline hword hslashes hnetwork hpos ⟨rfl, hsmall⟩

end Line

/-! ## Reading the lines -/

variable {cidr : Text}

section Reading

variable (foldCase : Char → Char) {r : Reading}

/-- A line with an address alone. -/
theorem readLine_one {port : Int} (hword : WrittenWord word) (hslashes : cutAt "//".toList word = none)
    (htoken : ipListParseAddressToken word = some ([cidr], port)) (hplain : r.tabularFile = false) :
    readLine foldCase 0 r word = addCidr (entryPort 0 port) { r with firstContentLine := false } cidr := by
  have hline := WrittenLine.one hword
  have htokens : lineTokens word = [⟨word, 0, .address, [cidr], port⟩] := by
    rw [lineTokens, hline.lineWords, zipIdx_singleton, map_singleton, tokenOf, htoken]
  rw [readLine, hline.content hslashes]
  simp only [htokens, hline.separated, hplain, isEmpty_cons, Bool.false_eq_true, if_false, all_cons,
    all_nil, ne_eq, not_true, decide_false, Bool.false_and, Bool.or_false]
  simp only [addTokens, Bool.false_eq_true, and_false, if_false, head?_nil, Option.map_none, reduceCtorEq]
  rfl

/-- A line with an address and its port. -/
theorem readLine_two (hword : WrittenWord word) (hslashes : cutAt "//".toList (word ++ [' '] ++ natText port) = none)
    (htoken : ipListParseAddressToken word = some ([cidr], -1)) (hport : port ≤ 65535)
    (hplain : r.tabularFile = false) : readLine foldCase 0 r (word ++ [' '] ++ natText port) =
    addCidr (entryPort 0 port) { r with firstContentLine := false } cidr := by
  have hline := WrittenLine.two hword (writtenWord_natText port)
  have htokens : lineTokens (word ++ [' '] ++ natText port) = [⟨word, 0, .address, [cidr], -1⟩, ⟨natText port, 1, .port, [], port⟩] := by
    rw [lineTokens, hline.lineWords, zipIdx_cons, zipIdx_singleton, map_cons, map_singleton, tokenOf_port hport, tokenOf, htoken]
  rw [readLine, hline.content hslashes]
  simp only [htokens, hline.separated, hplain, isEmpty_cons, Bool.false_eq_true, if_false, all_cons,
    all_nil, ne_eq, not_true, decide_false, Bool.false_and, Bool.or_false]
  simp only [addTokens, Bool.false_eq_true, and_false, if_false, head?_cons, Option.map_some, Option.getD_some]
  rfl

/-- **The line of an entry** gives the entry, and nothing is made of it for the lines behind. -/
theorem readLine_entry (h : EntryLine e) (hplain : r.tabularFile = false) :
    readLine foldCase 0 r (FormatEntry e) = addCidr e.port { r with firstContentLine := false } e.cidr := by
  cases h with
  | one port hword hslashes htoken hport => rw [readLine_one foldCase hword hslashes htoken hplain, hport]
  | two port hline hword hslashes htoken hpos hport =>
    rw [hline] at hslashes ⊢
    rw [readLine_two foldCase hword hslashes htoken hport.2 hplain, hport.1]
    exact congrArg (addCidr · _ _) (if_neg (by omega))

/-- What a scan measured is not written. -/
def IpListEntry.unmeasured (e : IpListEntry) : IpListEntry := { e with latencyMs := 0 }

theorem seenKey_inj {cidr' : Text} {port port' : Int} (h : seenKey cidr port = seenKey cidr' port') : (cidr, port) = (cidr', port') := by
  have hcidr := seenKey_cidr h
  rw [seenKey, seenKey, hcidr] at h
  have hport : intText port = intText port' := (List.cons.inj (append_cancel_left h)).2
  have hread := readInt_intText port
  rw [hport, readInt_intText, Option.some.injEq] at hread
  rw [hcidr, hread]

/-- The lines of an export, one after another. -/
theorem readLine_entries {entries : List IpListEntry} (hfixed : ∀ e ∈ entries, NormalizeCidr e.cidr = e.cidr ∧ e.cidr ≠ [])
    (hport : ∀ e ∈ entries, 0 ≤ e.port ∧ e.port ≤ 65535) (hnodup : (entries.map fun e => (e.cidr, e.port)).Nodup)
    (hnew : ∀ e ∈ entries, seenKey e.cidr e.port ∉ r.seen) (hplain : r.tabularFile = false) :
    ((entries.map FormatEntry).foldl (readLine foldCase 0) r).result =
    { r.result with entries := r.result.entries ++ entries.map IpListEntry.unmeasured } := by
  induction entries generalizing r with
  | nil =>
    rw [map_nil, map_nil, append_nil]
    rfl
  | cons e rest ih =>
    rw [map_cons, nodup_cons] at hnodup
    obtain ⟨hfirst, hrest⟩ := hnodup
    have hfresh : seenKey e.cidr e.port ∉ r.seen := hnew e mem_cons_self
    obtain ⟨hcidr, hsome⟩ := hfixed e mem_cons_self
    have hstep : readLine foldCase 0 r (FormatEntry e) = { r with
          firstContentLine := false
          seen := seenKey e.cidr e.port :: r.seen
          result := { r.result with entries := r.result.entries ++ [e.unmeasured] } } := by
      have hline := entryLine_of_fixed hcidr hsome (hport e mem_cons_self)
      rw [readLine_entry foldCase hline hplain, addCidr, if_neg hfresh]
      rfl
    rw [map_cons, foldl_cons, hstep, ih]
    · simp only [map_cons, append_assoc, singleton_append]
    · exact fun e' he' => hfixed e' (mem_cons_of_mem e he')
    · exact fun e' he' => hport e' (mem_cons_of_mem e he')
    · exact hrest
    · intro e' he' hin
      rcases mem_cons.1 hin with hsame | hold
      · apply hfirst
        rw [← seenKey_inj hsame]
        exact mem_map_of_mem he'
      · exact hnew e' (mem_cons_of_mem e he') hold
    · exact hplain

end Reading

/-! ## The whole text -/

theorem mem_intercalate {texts : List Text} (h : c ∈ [d].intercalate texts) : c = d ∨ ∃ text ∈ texts, c ∈ text := by
  induction texts with
  | nil => cases h
  | cons text rest ih =>
    cases rest with
    | nil =>
      rw [intercalate_singleton] at h
      exact .inr ⟨text, mem_cons_self, h⟩
    | cons next rest =>
      rw [intercalate_cons_cons, append_assoc] at h
      rcases mem_append.1 h with hfirst | hback
      · exact .inr ⟨text, mem_cons_self, hfirst⟩
      · rcases mem_append.1 hback with hnewline | hrest
        · exact .inl (mem_singleton.1 hnewline)
        · rcases ih hrest with heq | ⟨text', htext', hc⟩
          · exact .inl heq
          · exact .inr ⟨text', mem_cons_of_mem text htext', hc⟩

/-- The lines of a text without a mark in front. -/
theorem rawLines_intercalate {lines : List Text} (hne : lines ≠ [])
    (h : ∀ line ∈ lines, '\n' ∉ line ∧ '\uFEFF' ∉ line) : rawLines (['\n'].intercalate lines) = lines := by
  have hmark : (['\n'].intercalate lines).head? ≠ some '\uFEFF' := by
    intro hhead
    rcases mem_intercalate (mem_of_head? hhead) with heq | ⟨line, hline, hin⟩
    · cases heq
    · exact (h line hline).2 hin
  rw [rawLines, if_neg hmark]
  exact splitOn_intercalate '\n' (fun line hline => (h line hline).1) hne

theorem exportResults_eq (entries : List IpListEntry) : exportResults entries = ['\n'].intercalate (entries.map FormatEntry ++ [[]]) := by
  induction entries with
  | nil => rfl
  | cons e rest ih =>
    have hne : rest.map FormatEntry ++ [[]] ≠ [] := by simp
    rw [map_cons, cons_append, intercalate_cons_of_ne_nil hne, ← ih]
    rfl

/-- All 128 bits of an address are in its text. -/
theorem v6_format {hi lo : Nat} (hhi : hi < 2 ^ 64) (hlo : lo < 2 ^ 64) : ipListParseV6 (ipListParseFormat ⟨true, hi, lo⟩) = some (hi, lo) := by
  have hlt : ∀ g ∈ groupsOf hi ++ groupsOf lo, g < 65536 := by
    intro g hg
    exact (mem_append.1 hg).elim (groupsOf_lt hi g) (groupsOf_lt lo g)
  have hread := read_written (written_format (groupsOf hi ++ groupsOf lo)) rfl hlt
  show (ipListParseV6Groups (formatGroups (groupsOf hi ++ groupsOf lo))).map _ = _
  rw [hread, Option.map_some, show (groupsOf hi ++ groupsOf lo).take 4 = groupsOf hi from rfl,
    show (groupsOf hi ++ groupsOf lo).drop 4 = groupsOf lo from rfl, wordOf_groupsOf hhi, wordOf_groupsOf hlo]

section Export

variable {entries : List IpListEntry}

/-- No line holds a newline or a mark. -/
theorem EntryLine.not_mem (h : EntryLine e) (hc : wordChar c = false) (hblank : c ≠ ' ') : c ∉ FormatEntry e := by
  have hwritten : ∃ ws, WrittenLine (FormatEntry e) ws := by
    cases h with
    | one _ hword => exact ⟨_, .one hword⟩
    | two port hline hword =>
      rw [hline]
      exact ⟨_, .two hword (writtenWord_natText port)⟩
  obtain ⟨ws, hline⟩ := hwritten
  exact fun hin => hline.ne_of_mem hin hc hblank rfl

theorem export_read (foldCase : Char → Char) (hfixed : ∀ e ∈ entries, NormalizeCidr e.cidr = e.cidr ∧ e.cidr ≠ [])
    (hport : ∀ e ∈ entries, 0 ≤ e.port ∧ e.port ≤ 65535) (hnodup : (entries.map fun e => (e.cidr, e.port)).Nodup) :
    ∀ content ∈ [copyResults entries, exportResults entries],
    ParseIpListText foldCase content 0 = ⟨entries.map IpListEntry.unmeasured, 0, 0, []⟩ := by
  have hread : ((entries.map FormatEntry).foldl (readLine foldCase 0) Reading.start).result = ⟨entries.map IpListEntry.unmeasured, 0, 0, []⟩ :=
    readLine_entries foldCase hfixed hport hnodup (fun _ _ => not_mem_nil) rfl
  have hlines : ∀ line ∈ entries.map FormatEntry, '\n' ∉ line ∧ '\uFEFF' ∉ line := by
    intro line hline
    obtain ⟨e, he, rfl⟩ := mem_map.1 hline
    have hentry := entryLine_of_fixed (hfixed e he).1 (hfixed e he).2 (hport e he)
    exact ⟨hentry.not_mem (by decide) (by decide), hentry.not_mem (by decide) (by decide)⟩
  have hempty (r : Reading) : readLine foldCase 0 r [] = r := rfl
  intro content hcontent
  rw [mem_cons, mem_singleton] at hcontent
  show ((rawLines content).foldl (readLine foldCase 0) Reading.start).result = _
  rcases hcontent with rfl | rfl
  · cases entries with
    | nil => rfl
    | cons e rest =>
      have hne : (e :: rest).map FormatEntry ≠ [] := cons_ne_nil _ _
      rw [copyResults, rawLines_intercalate hne hlines, hread]
  · rw [exportResults_eq, rawLines_intercalate (by simp)]
    · rw [foldl_append, foldl_cons, foldl_nil, hempty, hread]
    · intro line hline
      rcases mem_append.1 hline with hentry | hlast
      · exact hlines line hentry
      · rw [mem_singleton.1 hlast]
        exact ⟨not_mem_nil, not_mem_nil⟩

/-- **An export is read back.** A list of networks that are canonical, with ports or without, no network twice
with one port, comes back in its order from the text that is copied or saved; no word is rejected and none is a
duplicate. Every IPv6 address is read from its text. -/
theorem export_read_back (foldCase : Char → Char) (hfixed : ∀ e ∈ entries, NormalizeCidr e.cidr = e.cidr ∧ e.cidr ≠ [])
    (hport : ∀ e ∈ entries, 0 ≤ e.port ∧ e.port ≤ 65535) (hnodup : (entries.map fun e => (e.cidr, e.port)).Nodup) :
    (∀ content ∈ [copyResults entries, exportResults entries],
    ParseIpListText foldCase content 0 = ⟨entries.map IpListEntry.unmeasured, 0, 0, []⟩) ∧
    ∀ hi lo, hi < 2 ^ 64 → lo < 2 ^ 64 → ipListParseV6 (ipListParseFormat ⟨true, hi, lo⟩) = some (hi, lo) :=
  ⟨export_read foldCase hfixed hport hnodup, fun _ _ => v6_format⟩

/-- Hosts and networks of both families. -/
def someEntries : List IpListEntry :=
  [⟨"1.1.1.1".toList, 443, 20⟩, ⟨"2001:db8::1".toList, 8443, 0⟩, ⟨"1.1.1.1".toList, 0, 0⟩, ⟨"10.0.0.0/8".toList, 53, 0⟩, ⟨"::/1".toList, 0, 7⟩]

theorem someEntries_read : exportResults someEntries = "1.1.1.1:443\n[2001:db8::1]:8443\n1.1.1.1\n10.0.0.0/8 53\n::/1\n".toList ∧
    ParseIpListText Char.toLower (exportResults someEntries) 0 = ⟨someEntries.map IpListEntry.unmeasured, 0, 0, []⟩ := by
  have hread := @export_read_back someEntries Char.toLower (by decide) (by decide) (by decide)
  exact ⟨by decide, hread.1 _ (mem_cons_of_mem _ mem_cons_self)⟩

/-- What was measured is not in the text, and a text that is no network has no line. -/
theorem export_not_same : (NormalizeCidr "1.1.1.1".toList = "1.1.1.1".toList ∧
    (ParseIpListText Char.toLower (exportResults [⟨"1.1.1.1".toList, 443, 20⟩]) 0).entries ≠
    [⟨"1.1.1.1".toList, 443, 20⟩]) ∧ (NormalizeCidr [] = [] ∧
    (ParseIpListText Char.toLower (exportResults [⟨[], 0, 0⟩]) 0).entries ≠ [⟨[], 0, 0⟩]) := by
  have hlatency : (ParseIpListText Char.toLower (exportResults [⟨"1.1.1.1".toList, 443, 20⟩]) 0).entries.map (·.latencyMs) = [0] := by decide
  have hnone : (ParseIpListText Char.toLower (exportResults [⟨[], 0, 0⟩]) 0).entries.map (·.latencyMs) = [] := by
    decide
  refine ⟨⟨by decide, fun hsame => ?_⟩, by decide, fun hsame => ?_⟩
  · rw [hsame] at hlatency
    cases hlatency
  · rw [hsame] at hnone
    cases hnone

end Export

end Throne.Scanner.IpListParse
