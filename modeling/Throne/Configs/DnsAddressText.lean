import Throne.Configs.DnsAddress

/-!
# DNS addresses written back

`FormatDnsAddress` and `DnsAddressWithType` of `src/src/configs/DnsAddress.cpp`, against the parser of the same file.
An address that is not valid is the parser's error. What Qt takes for a letter is a parameter.

`survives_exact` says which of the accepted texts come back from being written: those whose host, as it stands in the
text, is one the formatter's lack of brackets does not change.
-/

namespace Throne.Fsnt

open Lib.Texts Database.Routes Configs.Dns List

/-! ## The formatter -/

def FormatDnsAddress (address : Except Text DnsAddress) : Text :=
  match address with
  | .error _ => []
  | .ok address =>
    if address.type = "local".toList then "local".toList
    else if address.type = "dhcp".toList then
      "dhcp://".toList ++ if address.interfaceName.isEmpty then "auto".toList else address.interfaceName
    else
      let host :=
        if address.port ≠ -1 ∧ address.server.count ':' > 1 then '[' :: address.server ++ [']']
        else address.server
      let result := address.type ++ "://".toList ++ host
      let result := if address.port ≠ -1 then result ++ ':' :: intText address.port else result
      if address.path.isEmpty then result else result ++ address.path

section Model

variable (isLetter : Char → Bool)

def looksLikeIpLiteral (host : Text) : Bool :=
  if host.isEmpty then false else if host.contains ':' then true else host.all fun ch => !isLetter ch

def DnsAddressWithType (address : Except Text DnsAddress) (type : Text) : Text :=
  match address with
  | .error _ => []
  | .ok address =>
    if address.type = "local".toList ∨ address.type = "dhcp".toList then []
    else if !kSchemes.contains type then []
    else
      let path :=
        if typeCarriesPath type then
          if looksLikeIpLiteral isLetter address.server then "/dns-query".toList
          else if address.path.isEmpty then "/dns-query".toList
          else address.path
        else []
      FormatDnsAddress (.ok { address with type := type, port := -1, path := path })

/-- The address comes back from being written, and so does its server under every scheme. -/
structure Survives (address : DnsAddress) : Prop where
  again : ParseDnsAddress (FormatDnsAddress (.ok address)) = .ok address
  withType : address.type ≠ "local".toList → address.type ≠ "dhcp".toList → ∀ type ∈ kSchemes,
    ∃ moved, ParseDnsAddress (DnsAddressWithType isLetter (.ok address) type) = .ok moved ∧ moved.type = type ∧ moved.server = address.server

end Model

/-! ## The host as it stands in the text -/

/-- What stands behind the scheme, if there is one, and before the path. -/
def authority (text : Text) : Text :=
  let rest := match cutAt "://".toList (trimmed text) with
    | some (_, rest) => rest
    | none => trimmed text
  (splitPath rest).1

/-- What stands between the brackets, or before the only colon. -/
def hostText (authority : Text) : Text :=
  match authority with
  | '[' :: inner => inner.takeWhile (· != ']')
  | _ => if authority.count ':' = 1 then authority.takeWhile (· != ':') else authority

/-- There is no white space at the end. -/
def Solid (text : Text) : Prop := ∀ c, text.getLast? = some c → isSpace c = false

/-- A host that can stand without brackets, and at the end of a text. -/
structure Bare (host : Text) : Prop where
  bracket : host.head? ≠ some '['
  colons : host.count ':' ≠ 1
  solid : Solid host

/-- No server, or one whose host can stand without brackets. -/
def WritesBack (text : Text) : Prop :=
  startsWithNoCase "local".toList (trimmed text) = true ∨ startsWithNoCase "dhcp://".toList (trimmed text) = true ∨ Bare (hostText (authority text))

/-! ## What the parser splits -/

variable {c : Char} {n : Int} {front rest text : Text}

section Split

variable {input server : Text} {port : Int}

theorem takeWhile_until (h : c ∉ front) (rest : Text) : (front ++ c :: rest).takeWhile (· != c) = front := by
  have hfront : ∀ d ∈ front, (d != c) = true := by
    intro d hd
    rw [bne_iff_ne]
    rintro rfl
    exact h hd
  rw [takeWhile_append_of_pos hfront, takeWhile_cons_of_neg (by simp), append_nil]

/-- The first part has none of the sign it is cut at. -/
theorem splitFirst_parts {host : Text} (h : splitFirst c text = some (host, rest)) : text = host ++ c :: rest ∧ c ∉ host := by
  refine ⟨splitFirst_some h, fun hmem => ?_⟩
  rw [splitFirst] at h
  split at h
  · obtain ⟨rfl, -⟩ := Prod.mk.inj (Option.some.inj h)
    exact absurd (mem_takeWhile_imp hmem) (by simp)
  · cases h

theorem splitFirst_until {host : Text} (h : c ∉ host) (rest : Text) : splitFirst c (host ++ c :: rest) = some (host, rest) := by
  have hmem : (host ++ c :: rest).contains c = true := contains_iff_mem.2 (mem_append_right _ mem_cons_self)
  have hfront : ∀ d ∈ host, (d != c) = true := by
    intro d hd
    rw [bne_iff_ne]
    rintro rfl
    exact h hd
  rw [splitFirst, if_pos hmem, takeWhile_until h, dropWhile_append_of_pos hfront, dropWhile_cons_of_neg (by simp), drop_one, tail_cons]

theorem readPort_range (h : readPort text = .ok n) : 1 ≤ n ∧ n ≤ 65535 := by
  rw [readPort] at h
  split at h
  · cases h
  · split at h
    · split at h
      · next hrange =>
        cases h
        exact hrange
      · cases h
    · cases h

/-- What `splitHostPort` takes: a host in brackets, one that ends the text, or one before the only colon. -/
theorem splitHostPort_cases (h : splitHostPort input = .ok (server, port)) : (∃ tail, input = '[' :: server ++ ']' :: tail ∧ ']' ∉ server ∧
    (tail = [] ∧ port = -1 ∨ ∃ portText, tail = ':' :: portText ∧ readPort portText = .ok port)) ∨
    input.head? ≠ some '[' ∧ input = server ∧ port = -1 ∧ server.count ':' ≠ 1 ∨
    input.head? ≠ some '[' ∧ ∃ portText, input = server ++ ':' :: portText ∧ server.count ':' = 0 ∧
    portText.count ':' = 0 ∧ readPort portText = .ok port := by
  rw [splitHostPort.eq_def] at h
  split at h
  · next inner =>
    refine .inl ?_
    split at h
    · cases h
    · next host rest hsplit =>
      obtain ⟨rfl, hnone⟩ := splitFirst_parts hsplit
      split at h
      · obtain ⟨rfl, rfl⟩ := Prod.mk.inj (Except.ok.inj h)
        exact ⟨[], rfl, hnone, .inl ⟨rfl, rfl⟩⟩
      · next portText =>
        cases hread : readPort portText with
        | error error =>
          rw [hread] at h
          cases h
        | ok n =>
          rw [hread] at h
          obtain ⟨rfl, rfl⟩ := Prod.mk.inj (Except.ok.inj h)
          exact ⟨':' :: portText, rfl, hnone, .inr ⟨portText, rfl, hread⟩⟩
      · cases h
  · next hbracket =>
    have hhead : input.head? ≠ some '[' := by
      intro hhead
      obtain ⟨inner, hinner⟩ := head?_eq_some_iff.1 hhead
      exact hbracket inner hinner
    split at h
    · next hcolons =>
      obtain ⟨rfl, rfl⟩ := Prod.mk.inj (Except.ok.inj h)
      exact .inr (.inl ⟨hhead, rfl, rfl, by omega⟩)
    · next hcolons =>
      split at h
      · next hnone =>
        obtain ⟨rfl, rfl⟩ := Prod.mk.inj (Except.ok.inj h)
        have hzero := count_eq_zero.2 (splitFirst_none hnone)
        exact .inr (.inl ⟨hhead, rfl, rfl, by omega⟩)
      · next host rest hsplit =>
        obtain ⟨rfl, hnone⟩ := splitFirst_parts hsplit
        cases hread : readPort rest with
        | error error =>
          rw [hread] at h
          cases h
        | ok n =>
          rw [hread] at h
          obtain ⟨rfl, rfl⟩ := Prod.mk.inj (Except.ok.inj h)
          rw [count_append, count_cons_self] at hcolons
          exact .inr (.inr ⟨hhead, rest, rfl, count_eq_zero.2 hnone, by omega, hread⟩)

/-- The server that is parsed is the host as it stands in the text. -/
theorem hostText_eq (h : splitHostPort input = .ok (server, port)) : hostText input = server := by
  rcases splitHostPort_cases h with ⟨tail, rfl, hnone, -⟩ | ⟨hhead, rfl, -, hcolons⟩ |
    ⟨hhead, portText, rfl, hserver, hport, -⟩
  · rw [cons_append, hostText, takeWhile_until hnone]
  · rw [hostText.eq_def]
    split
    · exact absurd rfl hhead
    · rw [if_neg hcolons]
  · have hone : (server ++ ':' :: portText).count ':' = 1 := by
      rw [count_append, count_cons_self, hserver, hport]
    rw [hostText.eq_def]
    split
    · next hinput =>
      rw [hinput] at hhead
      exact absurd rfl hhead
    · rw [if_pos hone, takeWhile_until (count_eq_zero.1 hserver)]

end Split

/-! ## Reading what was written -/

variable {type : Text}

theorem type_cases (h : type ∈ kSchemes) : type ≠ [] ∧ (∀ c ∈ type, c ≠ ':') ∧ (∀ c ∈ type, isSpace c = false) ∧ lowered type = type ∧
    type ≠ "local".toList ∧ type ≠ "dhcp".toList ∧ (∀ rest, startsWithNoCase "local".toList (type ++ rest) = false) ∧
    ∀ rest, startsWithNoCase "dhcp://".toList (type ++ rest) = false := by
  simp only [kSchemes, mem_cons, not_mem_nil, or_false] at h
  rcases h with rfl | rfl | rfl | rfl | rfl | rfl <;>
    exact ⟨by decide, forall_of_all (by decide), forall_of_all (by decide), by decide, by decide, by decide, fun _ => rfl, fun _ => rfl⟩

/-- A text with a scheme the parser knows. -/
theorem parse_typed (h : type ∈ kSchemes) (rest : Text) :
    ParseDnsAddress (type ++ "://".toList ++ rest) = parseServer type (rest.rdropWhile isSpace) := by
  obtain ⟨hne, hcolon, hsolid, hlower, -, -, hlocal, hdhcp⟩ := type_cases h
  have htrimmed : trimmed (type ++ "://".toList ++ rest) = type ++ ("://".toList ++ rest.rdropWhile isSpace) := by
    rw [trimmed, strip_behind (fun hnil => hne (append_eq_nil_iff.1 hnil).1), append_assoc]
    intro c hc
    rcases mem_append.1 hc with hc | hc
    · exact hsolid c hc
    · exact forall_of_all (P := fun c => isSpace c = false) (by decide) c hc
  have hset : (type ++ ("://".toList ++ rest.rdropWhile isSpace)).isEmpty = false := by
    rw [Bool.eq_false_iff, Ne, List.isEmpty_iff, append_eq_nil_iff]
    exact fun hnil => hne hnil.1
  have hcut : cutAt "://".toList (type ++ ("://".toList ++ rest.rdropWhile isSpace)) = some (type, rest.rdropWhile isSpace) := by
    rw [cutAt_append "://".toList ':' _ rfl type hcolon, cutAt_here (by decide), Option.map_some, append_nil]
  obtain ⟨c, cs, rfl⟩ := exists_cons_of_ne_nil hne
  rw [ParseDnsAddress]
  simp only [htrimmed, hset, hlocal, hdhcp, hcut, hlower, Bool.false_eq_true, if_false]
  rw [if_pos (contains_iff_mem.2 h)]

/-- Behind a scheme, in the terms of what is cut off. -/
theorem parseServer_written {hostPort path server : Text} {port : Int} (hslash : '/' ∉ hostPort)
    (hpath : path = [] ∨ path.head? = some '/') (hcarries : typeCarriesPath type = false → path = [])
    (hne : hostPort ≠ []) (hsplit : splitHostPort hostPort = .ok (server, port)) (hserver : server ≠ [])
    (hblank : ' ' ∉ server) : parseServer type (hostPort ++ path) = .ok ⟨type, server, port, path, []⟩ := by
  have hparts : splitPath (hostPort ++ path) = (hostPort, path) := by
    rcases hpath with rfl | hhead
    · rw [append_nil, splitPath_of_not_mem hslash]
    · obtain ⟨rest, rfl⟩ := head?_eq_some_iff.1 hhead
      have hfront : ∀ d ∈ hostPort, (d != '/') = true := by
        intro d hd
        rw [bne_iff_ne]
        rintro rfl
        exact hslash hd
      rw [splitPath, takeWhile_until hslash, dropWhile_append_of_pos hfront, dropWhile_cons_of_neg (by simp)]
  have hallowed : (!typeCarriesPath type && (hostPort ++ path).contains '/') = false := by
    cases hc : typeCarriesPath type with
    | true => rfl
    | false =>
      rw [hcarries hc, append_nil, Bool.not_false, Bool.true_and, Bool.eq_false_iff]
      exact fun hmem => hslash (contains_iff_mem.1 hmem)
  rw [parseServer, hallowed, if_neg Bool.false_ne_true, hparts]
  simp only
  rw [if_neg (by rw [List.isEmpty_iff]; exact hne), hsplit]
  simp only
  rw [if_neg (by rw [List.isEmpty_iff]; exact hserver), if_neg (by rw [contains_iff_mem]; exact hblank)]

theorem isSpace_digit (h : c.isDigit = true) : isSpace c = false := by
  rw [Char.isDigit, Bool.and_eq_true, decide_eq_true_eq, decide_eq_true_eq] at h
  have hlow : 48 ≤ c.toNat := h.1
  have hhigh : c.toNat ≤ 57 := h.2
  simp only [isSpace, Bool.or_eq_false_iff, Bool.and_eq_false_iff, decide_eq_false_iff_not, beq_eq_false_iff_ne]
  omega

/-- A number is written without white space, and is no empty text. -/
theorem intText_solid (n : Int) : (∀ c ∈ intText n, isSpace c = false) ∧ intText n ≠ [] := by
  refine ⟨fun c hc => ?_, fun hnil => ?_⟩
  · rcases mem_intText hc with rfl | hdigit
    · decide
    · exact isSpace_digit hdigit
  · have hread := readInt_intText n
    rw [hnil] at hread
    cases hread

theorem readPort_intText (hfirst : 1 ≤ n) (hlast : n ≤ 65535) : readPort (intText n) = .ok n := by
  obtain ⟨hsolid, hne⟩ := intText_solid n
  have hok : toIntOk (intText n) = some n := by
    rw [toIntOk, trimmed, strip_eq_self hsolid, readInt_intText, Option.filter_some, if_pos]
    rw [Bool.and_eq_true, decide_eq_true_eq, decide_eq_true_eq]
    omega
  rw [readPort, if_neg (by rw [List.isEmpty_iff]; exact hne), hok]
  simp only
  rw [if_pos ⟨hfirst, hlast⟩]

/-! ## The texts that come back -/

section Solid

variable {text : Text}

theorem rdropWhile_iff : text.rdropWhile isSpace = text ↔ Solid text := by
  rw [rdropWhile_eq_self_iff]
  constructor
  · intro h c hc
    have hne : text ≠ [] := by
      rintro rfl
      cases hc
    have hlast := h hne
    rw [getLast?_eq_some_getLast hne, Option.some.injEq] at hc
    rw [hc] at hlast
    exact Bool.eq_false_iff.2 hlast
  · intro h hne hspace
    rw [h _ (getLast?_eq_some_getLast hne)] at hspace
    cases hspace

theorem solid_trimmed (text : Text) : Solid (trimmed text) := rdropWhile_iff.1 (rdropWhile_idempotent _ _)

theorem solid_append (hne : rest ≠ []) : Solid (front ++ rest) ↔ Solid rest := by
  have hlast : (front ++ rest).getLast? = rest.getLast? := by
    rw [getLast?_append, getLast?_eq_some_getLast hne, Option.some_or]
  rw [Solid, Solid, hlast]

theorem solid_of_append (h : Solid (front ++ rest)) : Solid rest := by
  by_cases hne : rest = []
  · rw [hne]
    exact nofun
  · exact (solid_append hne).1 h

end Solid

theorem cutAt_parts {pattern : Text} (h : cutAt pattern text = some (front, rest)) : text = front ++ pattern ++ rest := by
  induction text generalizing front with
  | nil =>
    rw [cutAt] at h
    split at h
    · next hempty =>
      cases h
      rw [List.isEmpty_iff.1 hempty]
      rfl
    · cases h
  | cons c text ih =>
    rw [cutAt] at h
    split at h
    · next hhere =>
      cases h
      obtain ⟨tail, htail⟩ := isPrefixOf_iff_prefix.1 hhere
      rw [← htail, drop_left, nil_append]
    · obtain ⟨⟨before, behind⟩, hcut, hparts⟩ := Option.map_eq_some_iff.1 h
      cases hparts
      rw [ih hcut]
      rfl

section Exact

variable {text : Text} {address : DnsAddress}

/-- What the parser takes behind a scheme. -/
structure Taken (address : DnsAddress) : Prop where
  type : address.type ∈ kSchemes
  server : address.server ≠ []
  blank : ' ' ∉ address.server
  slash : '/' ∉ address.server
  port : address.port = -1 ∨ 1 ≤ address.port ∧ address.port ≤ 65535
  path : address.path = [] ∨ address.path.head? = some '/'
  carries : typeCarriesPath address.type = false → address.path = []
  solid : Solid address.path
  interfaceName : address.interfaceName = []
  close : address.port ≠ -1 → 1 < address.server.count ':' → ']' ∉ address.server

theorem splitPath_slash (rest : Text) : '/' ∉ (splitPath rest).1 ∧ ((splitPath rest).2 = [] ∨ (splitPath rest).2.head? = some '/') ∧
    (splitPath rest).1 ++ (splitPath rest).2 = rest := by
  refine ⟨fun hmem => absurd (mem_takeWhile_imp hmem) (by simp), ?_, takeWhile_append_dropWhile⟩
  show rest.dropWhile (· != '/') = [] ∨ (rest.dropWhile (· != '/')).head? = some '/'
  cases hdrop : rest.dropWhile (· != '/') with
  | nil => exact .inl rfl
  | cons c cs =>
    have hne : rest.dropWhile (· != '/') ≠ [] := by rw [hdrop]; exact cons_ne_nil c cs
    have hhead := head_dropWhile_not (· != '/') hne
    simp only [hdrop, head_cons, bne_eq_false_iff_eq] at hhead
    rw [hhead]
    exact .inr rfl

/-- What `parseServer` checks besides. -/
theorem parseServer_taken (htype : type ∈ kSchemes) (hsolid : Solid rest) (h : parseServer type rest = .ok address) :
    Taken address ∧ splitHostPort (splitPath rest).1 = .ok (address.server, address.port) := by
  obtain ⟨hnoPath, rfl, hset, hsplit, hpath⟩ := parseServer_parts h
  obtain ⟨hslash, hhead, hwhole⟩ := splitPath_slash rest
  have hblank : ' ' ∉ address.server ∧ address.interfaceName = [] := by
    rw [parseServer] at h
    simp only [hsplit] at h
    split at h
    · cases h
    · split at h
      · cases h
      · split at h
        · cases h
        · split at h
          · cases h
          · next hno =>
            have hfields := Except.ok.inj h
            refine ⟨fun hmem => hno (contains_iff_mem.2 hmem), ?_⟩
            rw [← hfields]
  have hparts : (∀ c ∈ address.server, c ∈ (splitPath rest).1) ∧ (address.port = -1 ∨ 1 ≤ address.port ∧ address.port ≤ 65535) ∧
      (address.port ≠ -1 → 1 < address.server.count ':' → ']' ∉ address.server) := by
    rcases splitHostPort_cases hsplit with ⟨tail, heq, hclose, htail⟩ | ⟨-, heq, hport, -⟩ |
      ⟨-, portText, heq, hcolons, -, hread⟩
    · rw [heq]
      refine ⟨fun c hc => mem_append_left _ (mem_cons_of_mem _ hc), ?_, fun _ _ => hclose⟩
      rcases htail with ⟨-, hport⟩ | ⟨portText, -, hread⟩
      · exact .inl hport
      · exact .inr (readPort_range hread)
    · rw [heq]
      exact ⟨fun _ hc => hc, .inl hport, fun h => absurd hport h⟩
    · rw [heq]
      exact ⟨fun c hc => mem_append_left _ hc, .inr (readPort_range hread), fun _ h => by omega⟩
  refine ⟨⟨htype, hset, hblank.1, fun hmem => hslash (hparts.1 _ hmem), hparts.2.1, ?_, fun hc => ?_, ?_, hblank.2, hparts.2.2⟩, hsplit⟩
  · rw [hpath]
    exact hhead
  · rw [hpath, splitPath_of_not_mem (hnoPath hc)]
  · rw [hpath]
    rw [← hwhole] at hsolid
    exact solid_of_append hsolid

/-- An address with a server: what it is made of, and its host as it stands in the text. -/
theorem taken_of_parse (h : ParseDnsAddress text = .ok address) (hlocal : startsWithNoCase "local".toList (trimmed text) = false)
    (hdhcp : startsWithNoCase "dhcp://".toList (trimmed text) = false) : Taken address ∧ hostText (authority text) = address.server := by
  rcases parse_cases h with ⟨hl, -⟩ | ⟨-, hd, -⟩ | ⟨-, -, type, rest, htype, hserver, hrest⟩
  · exact absurd (hlocal.symm.trans hl) (by decide)
  · exact absurd (hdhcp.symm.trans hd) (by decide)
  · have hauthority : authority text = (splitPath rest).1 ∧ Solid rest := by
      rw [authority]
      rcases hrest with ⟨scheme, hcut, -⟩ | ⟨hcut, rfl, -⟩
      · have hwhole := solid_trimmed text
        rw [cutAt_parts hcut] at hwhole
        rw [hcut]
        exact ⟨rfl, solid_of_append hwhole⟩
      · rw [hcut]
        exact ⟨rfl, solid_trimmed text⟩
    obtain ⟨htaken, hsplit⟩ := parseServer_taken htype hauthority.2 hserver
    rw [hauthority.1]
    exact ⟨htaken, hostText_eq hsplit⟩

/-- What is written of an address with a server. -/
theorem format_taken (h : Taken address) : ∃ hostPort, FormatDnsAddress (.ok address) = address.type ++ "://".toList ++ (hostPort ++ address.path) ∧
    (address.port = -1 ∧ hostPort = address.server ∨ address.port ≠ -1 ∧ 1 < address.server.count ':' ∧
    hostPort = '[' :: address.server ++ ']' :: ':' :: intText address.port ∨
    address.port ≠ -1 ∧ address.server.count ':' ≤ 1 ∧ hostPort = address.server ++ ':' :: intText address.port) := by
  obtain ⟨-, -, -, -, hnames⟩ := type_cases h.type
  have hpath (front : Text) : (if address.path.isEmpty then front else front ++ address.path) = front ++ address.path := by
    split
    · next hempty => rw [List.isEmpty_iff.1 hempty, append_nil]
    · rfl
  rw [FormatDnsAddress]
  simp only
  rw [if_neg hnames.1, if_neg hnames.2.1, hpath]
  by_cases hport : address.port = -1
  · refine ⟨address.server, ?_, .inl ⟨hport, rfl⟩⟩
    rw [if_neg (fun hno => hno hport), if_neg (fun hno => hno.1 hport), append_assoc]
  · rw [if_pos hport]
    by_cases hcolons : 1 < address.server.count ':'
    · refine ⟨'[' :: address.server ++ ']' :: ':' :: intText address.port, ?_, .inr (.inl ⟨hport, hcolons, rfl⟩)⟩
      rw [if_pos ⟨hport, hcolons⟩]
      simp only [append_assoc, cons_append, nil_append]
    · refine ⟨address.server ++ ':' :: intText address.port, ?_, .inr (.inr ⟨hport, by omega, rfl⟩)⟩
      rw [if_neg (fun hno => hcolons hno.2)]
      simp only [append_assoc, cons_append]

theorem intText_free (h : 1 ≤ n) (hc : c.isDigit = false) : c ∉ intText n := by
  obtain ⟨m, rfl⟩ := Int.eq_ofNat_of_zero_le (show 0 ≤ n by omega)
  intro hmem
  rw [isDigit_of_mem_natText (n := m) hmem] at hc
  cases hc

/-- A host without brackets of its own is read as it was written, with the port. -/
theorem split_written (h : Taken address) (hbare : Bare address.server) {hostPort : Text}
    (hwritten : address.port = -1 ∧ hostPort = address.server ∨ address.port ≠ -1 ∧ 1 < address.server.count ':' ∧
    hostPort = '[' :: address.server ++ ']' :: ':' :: intText address.port ∨
    address.port ≠ -1 ∧ address.server.count ':' ≤ 1 ∧ hostPort = address.server ++ ':' :: intText address.port) :
    splitHostPort hostPort = .ok (address.server, address.port) := by
  have hcolons := hbare.colons
  have hbracket := hbare.bracket
  rcases hwritten with ⟨hport, rfl⟩ | ⟨hport, hmany, rfl⟩ | ⟨hport, hfew, rfl⟩
  · rw [splitHostPort.eq_def, hport]
    split
    · next heq =>
      rw [heq] at hbracket
      exact absurd rfl hbracket
    · split
      · rfl
      · have hnone : splitFirst ':' address.server = none := by
          rw [splitFirst, if_neg]
          rw [contains_iff_mem, ← count_eq_zero]
          omega
        rw [hnone]
  · have hrange := h.port.resolve_left hport
    rw [cons_append, splitHostPort, splitFirst_until (h.close hport hmany)]
    simp only
    rw [readPort_intText hrange.1 hrange.2]
    rfl
  · have hrange := h.port.resolve_left hport
    have hnone : ':' ∉ address.server := count_eq_zero.1 (by omega)
    have hdigits : (intText address.port).count ':' = 0 := count_eq_zero.2 (intText_free hrange.1 (by decide))
    rw [splitHostPort.eq_def]
    split
    · next heq =>
      obtain ⟨c, cs, hserver⟩ := exists_cons_of_ne_nil h.server
      rw [hserver, cons_append, List.cons.injEq] at heq
      rw [hserver, heq.1] at hbracket
      exact absurd rfl hbracket
    · have hone : ¬1 < (address.server ++ ':' :: intText address.port).count ':' := by
        rw [count_append, count_cons_self, hdigits, count_eq_zero.2 hnone]
        decide
      rw [if_neg hone, splitFirst_until hnone]
      simp only
      rw [readPort_intText hrange.1 hrange.2]
      rfl

/-- An address whose host can stand without brackets comes back. -/
theorem again_of_bare (h : Taken address) (hbare : Bare address.server) : ParseDnsAddress (FormatDnsAddress (.ok address)) = .ok address := by
  obtain ⟨hostPort, hformat, hwritten⟩ := format_taken h
  have hsplit := split_written h hbare hwritten
  obtain ⟨hdigits, hset⟩ := intText_solid address.port
  have hend (front : Text) : Solid (front ++ intText address.port) :=
    (solid_append hset).2 fun c hc => hdigits c (mem_of_getLast? hc)
  have hfree (hno : address.port ≠ -1) : '/' ∉ intText address.port :=
    intText_free (h.port.resolve_left hno).1 (by decide)
  have hslash := h.slash
  have hfacts : hostPort ≠ [] ∧ '/' ∉ hostPort ∧ Solid hostPort := by
    rcases hwritten with ⟨-, rfl⟩ | ⟨hno, -, rfl⟩ | ⟨hno, -, rfl⟩
    · exact ⟨h.server, hslash, hbare.solid⟩
    · refine ⟨cons_ne_nil _ _, ?_, ?_⟩
      · have hnone := hfree hno
        simp [hslash, hnone]
      · rw [show '[' :: address.server ++ ']' :: ':' :: intText address.port = ('[' :: address.server ++ [']', ':']) ++ intText address.port by simp]
        exact hend _
    · refine ⟨fun hnil => h.server (append_eq_nil_iff.1 hnil).1, ?_, ?_⟩
      · have hnone := hfree hno
        simp [hslash, hnone]
      · rw [show address.server ++ ':' :: intText address.port = (address.server ++ [':']) ++ intText address.port by simp]
        exact hend _
  have hsolid : Solid (hostPort ++ address.path) := by
    by_cases hpath : address.path = []
    · rw [hpath, append_nil]
      exact hfacts.2.2
    · exact (solid_append hpath).2 h.solid
  rw [hformat, parse_typed h.type, rdropWhile_iff.2 hsolid,
    parseServer_written hfacts.2.1 h.path h.carries hfacts.1 hsplit h.server h.blank, ← h.interfaceName]

/-- Under another scheme an address keeps its server, and takes a path where the scheme has one. -/
theorem withType_eq (isLetter : Char → Bool) (h : Taken address) (htype : type ∈ kSchemes) :
    ∃ path, DnsAddressWithType isLetter (.ok address) type = FormatDnsAddress (.ok { address with type := type, port := -1, path := path }) ∧
      Taken { address with type := type, port := -1, path := path } ∧
      (typeCarriesPath type = false → path = []) := by
  obtain ⟨-, -, -, -, hnames⟩ := type_cases h.type
  obtain ⟨path, hpath⟩ : ∃ path, (if typeCarriesPath type then
      if looksLikeIpLiteral isLetter address.server then "/dns-query".toList
      else if address.path.isEmpty then "/dns-query".toList
      else address.path
    else []) = path := ⟨_, rfl⟩
  have hquery : "/dns-query".toList.head? = some '/' ∧ Solid "/dns-query".toList :=
    ⟨rfl, fun c hc => by cases hc; decide⟩
  have hcarries : typeCarriesPath type = false → path = [] := by
    intro hno
    rw [hno, if_neg Bool.false_ne_true] at hpath
    exact hpath.symm
  have htaken : (path = [] ∨ path.head? = some '/') ∧ Solid path := by
    rw [← hpath]
    split
    · split
      · exact ⟨.inr hquery.1, hquery.2⟩
      · split
        · exact ⟨.inr hquery.1, hquery.2⟩
        · exact ⟨h.path, h.solid⟩
    · exact ⟨.inl rfl, nofun⟩
  refine ⟨path, ?_, ⟨htype, h.server, h.blank, h.slash, .inl rfl, htaken.1, hcarries, htaken.2, h.interfaceName, fun hno => absurd rfl hno⟩, hcarries⟩
  rw [DnsAddressWithType]
  simp only
  rw [if_neg (not_or.2 ⟨hnames.1, hnames.2.1⟩), contains_iff_mem.2 htype, if_neg (by decide), hpath]

/-- A server that is still the same under `udp` has a host that can stand without brackets. -/
theorem bare_of_udp {moved : DnsAddress} (hparse : ParseDnsAddress ("udp".toList ++ "://".toList ++ address.server) = .ok moved)
    (hsame : moved.server = address.server) : Bare address.server := by
  have hudp : "udp".toList ∈ kSchemes := by decide
  rw [parse_typed hudp] at hparse
  have hshort : (address.server.rdropWhile isSpace).length ≤ address.server.length := ( rdropWhile_prefix isSpace address.server).length_le
  obtain ⟨hslash, -, -, hsplit, -⟩ := parseServer_parts hparse
  rw [splitPath_of_not_mem (hslash rfl), hsame] at hsplit
  dsimp only at hsplit
  rcases splitHostPort_cases hsplit with ⟨tail, heq, -⟩ | ⟨hhead, heq, -, hcolons⟩ | ⟨-, portText, heq, -⟩
  · -- the text would be longer than it is
    rw [heq, length_append, length_cons, length_cons] at hshort
    omega
  · rw [heq] at hhead
    exact ⟨hhead, hcolons, rdropWhile_iff.1 heq⟩
  · rw [heq, length_append, length_cons] at hshort
    omega

theorem survives_taken (isLetter : Char → Bool) (h : Taken address) : Survives isLetter address ↔ Bare address.server := by
  obtain ⟨-, -, -, -, hnames⟩ := type_cases h.type
  constructor
  · intro hsurvives
    have hudp : "udp".toList ∈ kSchemes := by decide
    obtain ⟨moved, hparse, -, hsame⟩ := hsurvives.withType hnames.1 hnames.2.1 "udp".toList hudp
    obtain ⟨path, heq, htaken, hpath⟩ := withType_eq isLetter h hudp
    obtain rfl := hpath rfl
    obtain ⟨hostPort, hformat, ⟨-, rfl⟩ | ⟨hno, -⟩ | ⟨hno, -⟩⟩ := format_taken htaken
    · rw [heq, hformat, append_nil] at hparse
      exact bare_of_udp hparse hsame
    all_goals exact absurd rfl hno
  · intro hbare
    refine ⟨again_of_bare h hbare, fun _ _ type htype => ?_⟩
    obtain ⟨path, heq, htaken, -⟩ := withType_eq isLetter h htype
    rw [heq]
    exact ⟨_, again_of_bare htaken hbare, rfl, rfl⟩

/-- The system's resolver and an interface come back. -/
theorem survives_serverless (isLetter : Char → Bool) : Survives isLetter ⟨"local".toList, [], -1, [], []⟩ ∧
    ∀ text : Text, Solid text → Survives isLetter ⟨"dhcp".toList, [], -1, [], if text = "auto".toList then [] else text⟩ := by
  refine ⟨⟨by decide, fun hno => absurd rfl hno⟩, fun text hsolid => ⟨?_, fun _ hno => absurd rfl hno⟩⟩
  obtain ⟨name, hname⟩ : ∃ name, (if text = "auto".toList then [] else text) = name := ⟨_, rfl⟩
  obtain ⟨written, hwritten⟩ : ∃ written, (if name.isEmpty then "auto".toList else name) = written := ⟨_, rfl⟩
  have hback : Solid written ∧ (if written = "auto".toList then [] else written) = name := by
    rw [← hwritten]
    by_cases hempty : name = []
    · rw [hempty]
      show Solid "auto".toList ∧ (if "auto".toList = "auto".toList then [] else "auto".toList) = []
      exact ⟨fun c hc => by cases hc; decide, if_pos rfl⟩
    · rw [if_neg (by rw [List.isEmpty_iff]; exact hempty)]
      split at hname
      · exact absurd hname.symm hempty
      · next hno =>
        obtain rfl := hname
        exact ⟨hsolid, if_neg hno⟩
  rw [hname]
  have hformat : FormatDnsAddress (.ok ⟨"dhcp".toList, [], -1, [], name⟩) = "dhcp://".toList ++ written := by
    rw [FormatDnsAddress]
    simp only
    rw [if_neg (by decide), if_pos trivial, hwritten]
  have htrimmed : trimmed ("dhcp://".toList ++ written) = "dhcp://".toList ++ written := by
    rw [trimmed, strip_behind (by decide) (forall_of_all (by decide)), rdropWhile_iff.2 hback.1]
  have hlocal : startsWithNoCase "local".toList ("dhcp://".toList ++ written) = false := rfl
  have hdhcp : startsWithNoCase "dhcp://".toList ("dhcp://".toList ++ written) = true := rfl
  have hset : ("dhcp://".toList ++ written).isEmpty = false := rfl
  have hdrop : ("dhcp://".toList ++ written).drop 7 = written := rfl
  rw [hformat, ParseDnsAddress]
  simp only [htrimmed, hset, hlocal, hdhcp, hdrop, Bool.false_eq_true, if_false, if_true]
  rw [hback.2]

end Exact

/-- The accepted texts whose address comes back from being written, and keeps its server under every scheme. -/
theorem survives_exact (isLetter : Char → Bool) (text : Text) (address : DnsAddress)
    (h : ParseDnsAddress text = .ok address) : Survives isLetter address ↔ WritesBack text := by
  rcases parse_cases h with ⟨hlocal, rfl⟩ | ⟨hlocal, hdhcp, rfl⟩ | ⟨hlocal, hdhcp, -⟩
  · exact ⟨fun _ => .inl hlocal, fun _ => (survives_serverless isLetter).1⟩
  · refine ⟨fun _ => .inr (.inl hdhcp), fun _ => (survives_serverless isLetter).2 _ ?_⟩
    have hwhole := solid_trimmed text
    rw [← take_append_drop 7 (trimmed text)] at hwhole
    exact solid_of_append hwhole
  · obtain ⟨htaken, hhost⟩ := taken_of_parse h hlocal hdhcp
    rw [survives_taken isLetter htaken, WritesBack, hhost, hlocal, hdhcp]
    constructor
    · exact fun hbare => .inr (.inr hbare)
    · rintro (hno | hno | hbare)
      · cases hno
      · cases hno
      · exact hbare

theorem survives_bracketed : ParseDnsAddress "TLS://[2606:4700::1111]:853 ".toList =
    .ok ⟨"tls".toList, "2606:4700::1111".toList, 853, [], []⟩ ∧ (Survives Char.isAlpha ⟨"tls".toList, "2606:4700::1111".toList, 853, [], []⟩ ↔
    WritesBack "TLS://[2606:4700::1111]:853 ".toList) :=
  ⟨by decide, survives_exact Char.isAlpha "TLS://[2606:4700::1111]:853 ".toList ⟨"tls".toList, "2606:4700::1111".toList, 853, [], []⟩ (by decide)⟩

/-- A port inside the brackets is a part of the host, and is written without them. -/
theorem port_in_brackets : ¬∀ text address, ParseDnsAddress text = .ok address → Survives Char.isAlpha address := by
  intro hall
  have hsurvives := hall "tls://[1.1.1.1:853]".toList ⟨"tls".toList, "1.1.1.1:853".toList, -1, [], []⟩ (by decide)
  have hagain : ParseDnsAddress "tls://1.1.1.1:853".toList = .ok ⟨"tls".toList, "1.1.1.1:853".toList, -1, [], []⟩ := hsurvives.again
  exact absurd hagain (by decide)

end Throne.Fsnt
