import Throne.Global.OtpBase32

/-!
# The otpauth link

`ExportToLink` puts an entry into a URL and `ParseFromLink` reads one. A link is read back whatever its name and
issuer are (`parse_export_link`), but both stand in its path with a colon between them, and the first colon is where
it is cut. So the entry is the same just when no colon of its own stands there (`link_keeps_iff`).
-/

namespace Throne.Global.OTP

open Lib.Texts Database.Routes List

/-! ## The link -/

structure Url where
  scheme : Text
  host : Text
  path : Text
  query : List (Text × Text)
  deriving DecidableEq

/-- `QUrl` with `QUrlQuery`, and Qt's case conversion. -/
structure Qt where
  toText : Url → Text
  ofText : Text → Option Url
  upper : Text → Text
  lower : Text → Text

def AlgorithmToString : Algorithm → Text
  | .SHA256 => "SHA256".toList
  | .SHA512 => "SHA512".toList
  | .SHA1 => "SHA1".toList

def TypeToString : OtpType → Text
  | .HOTP => "hotp".toList
  | .TOTP => "totp".toList

/-- An integer of a number of bits. -/
def toInteger (bits : Nat) (text : Text) : Option Int :=
  match readInt text with
  | none => none
  | some n => if -2 ^ (bits - 1) ≤ n ∧ n < 2 ^ (bits - 1) then some n else none

def hasQueryItem (url : Url) (key : String) : Bool := (url.query.lookup key.toList).isSome

def queryItemValue (url : Url) (key : String) : Text := (url.query.lookup key.toList).getD []

section

variable (entry : Entry)

def otpBadSecret : Text := otpEntryLabel entry ++ ": the secret is not valid base32 (letters A-Z and digits 2-7).".toList

def otpBadDigits (value : Text) : Text :=
  otpEntryLabel entry ++ ": ".toList ++ value ++ " digits are not supported (use ".toList ++ intText MIN_DIGITS ++
    " to ".toList ++ intText MAX_DIGITS ++ ").".toList

def otpBadPeriod (value : Text) : Text :=
  otpEntryLabel entry ++ ": a period of \"".toList ++ value ++ "\" seconds is not supported (use ".toList ++
    intText MIN_PERIOD ++ " to ".toList ++ intText MAX_PERIOD ++ ").".toList

def otpBadCounter (value : Text) : Text :=
  otpEntryLabel entry ++ ": the counter \"".toList ++ value ++ "\" is not a whole number of 0 or more.".toList

/-- The items of an entry in their order. -/
def entryItems : List (Text × Text) :=
  [("secret".toList, entry.secret)] ++ (if entry.issuer = [] then [] else [("issuer".toList, entry.issuer)]) ++
    [("algorithm".toList, AlgorithmToString entry.algorithm), ("digits".toList, intText entry.digits)] ++
    if entry.type = .HOTP then [("counter".toList, intText entry.counter)]
    else [("period".toList, intText entry.period)]

/-- The URL of an entry. -/
def entryUrl : Url where
  scheme := "otpauth".toList
  host := TypeToString entry.type
  path := '/' :: if entry.issuer = [] then entry.name else entry.issuer ++ ':' :: entry.name
  query := entryItems entry

theorem entryUrl_host : (entryUrl entry).host = TypeToString entry.type := rfl

theorem entryUrl_path : (entryUrl entry).path = '/' :: if entry.issuer = [] then entry.name else entry.issuer ++ ':' :: entry.name := rfl

theorem entryUrl_query : (entryUrl entry).query = entryItems entry := rfl

end

section Link

variable (qt : Qt)

def AlgorithmFromString (name : Text) : Option Algorithm :=
  let normalized := (qt.upper (trimmed name)).filter (· != '-')
  if normalized = "SHA256".toList then some .SHA256
  else if normalized = "SHA512".toList then some .SHA512
  else if normalized = "SHA1".toList ∨ normalized = [] then some .SHA1
  else none

def TypeFromString (name : Text) : Option OtpType :=
  let normalized := qt.lower (trimmed name)
  if normalized = "hotp".toList then some .HOTP
  else if normalized = "totp".toList ∨ normalized = [] then some .TOTP
  else none

def ExportToLink (entry : Entry) : Text := qt.toText (entryUrl entry)

def pathLabel (path : Text) : Text := if path.head? = some '/' then path.drop 1 else path

/-- The issuer and the name in a label. -/
def labelParts (label : Text) : Text × Text :=
  if label.contains ':' then (trimmed (label.takeWhile (· != ':')), trimmed ((label.dropWhile (· != ':')).drop 1))
  else ([], trimmed label)

variable (url : Url)

def readLabel : Entry :=
  let parts := labelParts (pathLabel url.path)
  let given := trimmed (queryItemValue url "issuer")
  let issuer := if given ≠ [] then given else parts.1
  { issuer := issuer, name := if parts.2 = [] then issuer else parts.2 }

def readType (entry : Entry) : Except Text Entry :=
  match TypeFromString qt url.host with
  | none => .error (otpBadType entry url.host)
  | some type => .ok { entry with type := type }

def readSecret (entry : Entry) : Except Text Entry :=
  let secret := queryItemValue url "secret"
  if trimmed secret = [] then .error (otpNoSecret entry)
  else if NormalizeSecret secret = [] then .error (otpBadSecret { entry with secret := [] })
  else .ok { entry with secret := NormalizeSecret secret }

def readAlgorithm (entry : Entry) : Except Text Entry :=
  if hasQueryItem url "algorithm" then
    let algorithm := queryItemValue url "algorithm"
    match AlgorithmFromString qt algorithm with
    | none => .error (otpBadAlgorithm entry algorithm)
    | some algorithm => .ok { entry with algorithm := algorithm }
  else .ok entry

/-- A number of the link, if it is there: `int` or `qint64`, and in its bounds. -/
def readNumber (key : String) (bits : Nat) (inBounds : Int → Bool) (bad : Text → Text) (old : Int) : Except Text Int :=
  if hasQueryItem url key then
    let value := trimmed (queryItemValue url key)
    match toInteger bits value with
    | none => .error (bad value)
    | some n => if inBounds n then .ok n else .error (bad value)
  else .ok old

def readDigits (entry : Entry) : Except Text Entry :=
  match readNumber url "digits" 32 (fun n => MIN_DIGITS ≤ n && n ≤ MAX_DIGITS) (otpBadDigits entry) entry.digits with
  | .error problem => .error problem
  | .ok digits => .ok { entry with digits := digits }

/-- The period of a TOTP entry; the parameter of the other type is ignored. -/
def readPeriod (entry : Entry) : Except Text Entry :=
  if entry.type = .TOTP then
    match readNumber url "period" 32 (fun n => MIN_PERIOD ≤ n && n ≤ MAX_PERIOD) (otpBadPeriod entry) entry.period with
    | .error problem => .error problem
    | .ok period => .ok { entry with period := period }
  else .ok entry

def readCounter (entry : Entry) : Except Text Entry :=
  if entry.type = .HOTP then
    match readNumber url "counter" 64 (fun n => 0 ≤ n) (otpBadCounter entry) entry.counter with
    | .error problem => .error problem
    | .ok counter => .ok { entry with counter := counter }
  else .ok entry

/-- The entry of a link, or the problem, if one is given. -/
def ParseFromLink (link : Text) : Except (Option Text) Entry :=
  match qt.ofText (trimmed link) with
  | none => .error none
  | some url =>
    if qt.lower url.scheme ≠ "otpauth".toList then .error none
    else
      let read : Except Text Entry := do
        let entry ← readType qt url (readLabel url)
        let entry ← readSecret url entry
        let entry ← readAlgorithm qt url entry
        let entry ← readDigits url entry
        let entry ← readPeriod url entry
        readCounter url entry
      read.mapError some

end Link

/-! ## What comes back of the label -/

/-- Blanks taken off leave every other character. -/
theorem count_strip {blank : Char → Bool} {c : Char} (h : blank c = false) (text : Text) : (strip blank text).count c = text.count c := by
  have hnone (front : Text) (hall : ∀ d ∈ front, blank d = true) : front.count c = 0 := by
    rw [count_eq_zero]
    intro hmem
    have hblank := hall c hmem
    rw [h] at hblank
    cases hblank
  have hfront : (text.dropWhile blank).count c = text.count c := by
    calc (text.dropWhile blank).count c
        = (text.takeWhile blank).count c + (text.dropWhile blank).count c := by
          rw [hnone _ fun d hd => mem_takeWhile_imp hd, Nat.zero_add]
      _ = text.count c := by rw [← count_append, takeWhile_append_dropWhile]
  calc (strip blank text).count c
      = (strip blank text).count c + ((text.dropWhile blank).rtakeWhile blank).count c := by
        rw [hnone _ fun d hd => mem_rtakeWhile_imp hd, Nat.add_zero]
    _ = (text.dropWhile blank).count c := by rw [← count_append, strip, rdropWhile_append_rtakeWhile]
    _ = text.count c := hfront

theorem colons_trimmed (text : Text) : (trimmed text).count ':' = text.count ':' := count_strip (by decide) text

/-- A label is cut at its first colon. -/
theorem labelParts_colon {front : Text} (h : ':' ∉ front) (back : Text) : labelParts (front ++ ':' :: back) = (trimmed front, trimmed back) := by
  have hfront : ∀ c ∈ front, (c != ':') = true := by
    intro c hc
    rw [bne_iff_ne]
    rintro rfl
    exact h hc
  have hcolon : (front ++ ':' :: back).contains ':' = true := by
    rw [contains_iff_mem]
    exact mem_append_right _ mem_cons_self
  rw [labelParts, if_pos hcolon, takeWhile_append_of_pos hfront, dropWhile_append_of_pos hfront,
    takeWhile_cons_of_neg (by decide), dropWhile_cons_of_neg (by decide), append_nil]
  rfl

theorem labelParts_plain {label : Text} (h : ':' ∉ label) : labelParts label = ([], trimmed label) := by
  rw [labelParts, if_neg]
  rw [contains_iff_mem]
  exact h

/-! ## What stands in the query -/

theorem lookup_skip {key other : String} (h : key ≠ other) (value : Text) (rest : List (Text × Text)) :
    ((other.toList, value) :: rest).lookup key.toList = rest.lookup key.toList := by
  have hne : key.toList ≠ other.toList := fun heq => h (String.toList_inj.1 heq)
  rw [lookup_cons, beq_false_of_ne hne]

theorem lookup_here {key other : String} (h : key = other) (value : Text) (rest : List (Text × Text)) :
    ((other.toList, value) :: rest).lookup key.toList = some value := by
  rw [h, lookup_cons_self]

/-- The items of a link. -/
structure Items (entry : Entry) (url : Url) : Prop where
  secret : url.query.lookup "secret".toList = some entry.secret
  issuer : url.query.lookup "issuer".toList = if entry.issuer = [] then none else some entry.issuer
  algorithm : url.query.lookup "algorithm".toList = some (AlgorithmToString entry.algorithm)
  digits : url.query.lookup "digits".toList = some (intText entry.digits)
  period : entry.type = .TOTP → url.query.lookup "period".toList = some (intText entry.period)
  counter : entry.type = .HOTP → url.query.lookup "counter".toList = some (intText entry.counter)

theorem entry_items (entry : Entry) : Items entry (entryUrl entry) := by
  by_cases h : entry.issuer = []
  · constructor <;> try intro htype
    all_goals
      simp (disch := decide) only [entryUrl_query, entryItems, if_pos h, cons_append, nil_append, lookup_skip, lookup_here]
    · cases entry.type <;> simp (disch := decide) only [reduceCtorEq, if_true, if_false, lookup_skip, lookup_nil]
    · simp (disch := decide) only [htype, reduceCtorEq, if_false, lookup_here]
    · simp (disch := decide) only [htype, if_true, lookup_here]
  · constructor <;> try intro htype
    all_goals
      simp (disch := decide) only [entryUrl_query, entryItems, if_neg h, cons_append, nil_append, lookup_skip, lookup_here]
    · simp (disch := decide) only [htype, reduceCtorEq, if_false, lookup_here]
    · simp (disch := decide) only [htype, if_true, lookup_here]

theorem item_of_lookup {url : Url} {key : String} {value : Text} (h : url.query.lookup key.toList = some value) :
    hasQueryItem url key = true ∧ queryItemValue url key = value := by
  rw [hasQueryItem, queryItemValue, h]
  exact ⟨rfl, rfl⟩

theorem query_issuer (entry : Entry) : queryItemValue (entryUrl entry) "issuer" = entry.issuer := by
  rw [queryItemValue, (entry_items entry).issuer]
  split
  · next h => exact h.symm
  · rfl

/-! ## Reading back -/

/-- Case conversion of ASCII texts, as Qt has it. -/
structure AsciiCase (qt : Qt) : Prop where
  upper : ∀ text, (∀ c ∈ text, c.toNat < 128) → qt.upper text = text.map Char.toUpper
  lower : ∀ text, (∀ c ∈ text, c.toNat < 128) → qt.lower text = text.map Char.toLower

/-- What the application writes, `Validate` passes, and is whole. -/
structure Linkable (entry : Entry) : Prop where
  valid : Validate entry = []
  normal : NormalizeSecret entry.secret = entry.secret
  named : entry.name ≠ []
  name : trimmed entry.name = entry.name
  issuer : trimmed entry.issuer = entry.issuer
  counter : entry.type = .HOTP → 0 ≤ entry.counter
  counterWord : entry.counter < 2 ^ 63

section Reading

variable {qt : Qt} {entry : Entry} {url : Url}

theorem type_of_string (h : AsciiCase qt) (type : OtpType) : TypeFromString qt (TypeToString type) = some type := by
  cases type with
  | TOTP =>
    have hlower : qt.lower (trimmed (TypeToString .TOTP)) = "totp".toList := h.lower _ (forall_of_all (by decide))
    rw [TypeFromString, hlower]
    decide
  | HOTP =>
    have hlower : qt.lower (trimmed (TypeToString .HOTP)) = "hotp".toList := h.lower _ (forall_of_all (by decide))
    rw [TypeFromString, hlower]
    decide

theorem algorithm_of_string (h : AsciiCase qt) (algorithm : Algorithm) : AlgorithmFromString qt (AlgorithmToString algorithm) = some algorithm := by
  have hupper : qt.upper (trimmed (AlgorithmToString algorithm)) = AlgorithmToString algorithm := by
    cases algorithm <;> exact h.upper _ (forall_of_all (by decide))
  rw [AlgorithmFromString, hupper]
  cases algorithm <;> decide

theorem digit_solid {c : Char} (h : c.isDigit = true) : isSpace c = false := by
  rw [Char.isDigit, Bool.and_eq_true, decide_eq_true_eq, decide_eq_true_eq] at h
  have hlow : 48 ≤ c.toNat := UInt32.le_iff_toNat_le.1 h.1
  have hhigh : c.toNat ≤ 57 := UInt32.le_iff_toNat_le.1 h.2
  simp only [isSpace, Bool.or_eq_false_iff, Bool.and_eq_false_iff, decide_eq_false_iff_not, beq_eq_false_iff_ne]
  omega

theorem trimmed_intText (n : Int) : trimmed (intText n) = intText n := by
  apply strip_eq_self
  intro c hc
  rcases mem_intText hc with rfl | hdigit
  · decide
  · exact digit_solid hdigit

/-- A number in its bounds is read as it is written. -/
theorem readNumber_intText {key : String} {bits : Nat} {inBounds : Int → Bool} {bad : Text → Text} {old n : Int}
    (hitem : url.query.lookup key.toList = some (intText n)) (hlow : -2 ^ (bits - 1) ≤ n) (hhigh : n < 2 ^ (bits - 1))
    (hin : inBounds n = true) : readNumber url key bits inBounds bad old = .ok n := by
  obtain ⟨hhas, hvalue⟩ := item_of_lookup hitem
  have hread : toInteger bits (intText n) = some n := by
    rw [toInteger, readInt_intText]
    exact if_pos ⟨hlow, hhigh⟩
  rw [readNumber, if_pos hhas, hvalue, trimmed_intText]
  simp only [hread, hin, if_true]

theorem valid_bounds (h : Validate entry = []) : trimmed entry.secret ≠ [] ∧ MIN_DIGITS ≤ entry.digits ∧ entry.digits ≤ MAX_DIGITS ∧
    (entry.type = .TOTP → MIN_PERIOD ≤ entry.period ∧ entry.period ≤ MAX_PERIOD) := by
  have front_nil {front back : Text} (h : front ++ back = []) : front = [] := (append_eq_nil_iff.1 h).1
  rw [Validate] at h
  split at h
  · cases h
  next hsecret =>
  split at h
  · cases h
  split at h
  · cases h
  split at h
  · exact absurd (front_nil (front_nil (front_nil h))) (by decide)
  next hdigits =>
  split at h
  · exact absurd (front_nil (front_nil (front_nil (front_nil h)))) (by decide)
  next hperiod =>
  refine ⟨hsecret, ?_, ?_, fun htype => ⟨?_, ?_⟩⟩ <;> grind

/-- What is read back: the label as it is cut, all else as it was. -/
def readBack (entry : Entry) : Entry :=
  { readLabel (entryUrl entry) with
    secret := entry.secret
    algorithm := entry.algorithm
    type := entry.type
    digits := entry.digits
    period := if entry.type = .TOTP then entry.period else DEFAULT_PERIOD
    counter := if entry.type = .HOTP then entry.counter else 0 }

/-- A link is read back. -/
theorem parse_export_link (hcase : AsciiCase qt) (h : Linkable entry)
    (hurl : qt.ofText (trimmed (qt.toText (entryUrl entry))) = some (entryUrl entry)) :
    ParseFromLink qt (ExportToLink qt entry) = .ok (readBack entry) := by
  obtain ⟨hsecret, hminDigits, hmaxDigits, hperiod⟩ := valid_bounds h.valid
  have hitems := entry_items entry
  obtain ⟨-, hsecretItem⟩ := item_of_lookup hitems.secret
  obtain ⟨halgorithm, halgorithmItem⟩ := item_of_lookup hitems.algorithm
  have hscheme : qt.lower (entryUrl entry).scheme = "otpauth".toList :=
    hcase.lower "otpauth".toList (forall_of_all (by decide))
  have hne : entry.secret ≠ [] := by
    intro hnil
    rw [hnil] at hsecret
    exact hsecret rfl
  have htype (e : Entry) : readType qt (entryUrl entry) e = .ok { e with type := entry.type } := by
    rw [readType, entryUrl_host, type_of_string hcase]
  have hread (e : Entry) : readSecret (entryUrl entry) e = .ok { e with secret := entry.secret } := by
    rw [readSecret, hsecretItem, if_neg hsecret, h.normal, if_neg hne]
  have halg (e : Entry) : readAlgorithm qt (entryUrl entry) e = .ok { e with algorithm := entry.algorithm } := by
    rw [readAlgorithm, if_pos halgorithm, halgorithmItem]
    simp only [algorithm_of_string hcase]
  have hdigits (e : Entry) : readDigits (entryUrl entry) e = .ok { e with digits := entry.digits } := by
    rw [MIN_DIGITS] at hminDigits
    rw [MAX_DIGITS] at hmaxDigits
    rw [readDigits, readNumber_intText hitems.digits (by omega) (by omega)]
    simp only [MIN_DIGITS, MAX_DIGITS, hminDigits, hmaxDigits, decide_true, Bool.and_self]
  rw [ParseFromLink, ExportToLink, hurl]
  simp only [hscheme, ne_eq, not_true_eq_false, if_false, htype, hread, halg, hdigits, bind, Except.bind]
  cases hkind : entry.type with
  | TOTP =>
    obtain ⟨hminPeriod, hmaxPeriod⟩ := hperiod hkind
    rw [MIN_PERIOD] at hminPeriod
    rw [MAX_PERIOD] at hmaxPeriod
    rw [readPeriod, if_pos rfl, readNumber_intText (hitems.period hkind) (by omega) (by omega)]
    · simp only [readCounter, reduceCtorEq, if_false, Except.mapError, readBack, hkind, if_true]
      rfl
    · simp only [MIN_PERIOD, MAX_PERIOD, hminPeriod, hmaxPeriod, decide_true, Bool.and_self]
  | HOTP =>
    have hcounter := h.counter hkind
    have hword := h.counterWord
    simp only [readPeriod, reduceCtorEq, if_false]
    rw [readCounter, if_pos rfl, readNumber_intText (hitems.counter hkind) (by omega) (by omega)]
    · simp only [Except.mapError, readBack, hkind, reduceCtorEq, if_false, if_true]
      rfl
    · exact decide_eq_true hcounter

/-- Issuer and name are themselves again just when no colon of theirs is the first of the path. -/
theorem label_keeps_iff (h : Linkable entry) : (readLabel (entryUrl entry)).name = entry.name ∧ (readLabel (entryUrl entry)).issuer = entry.issuer ↔
    ':' ∉ entry.issuer ∧ (entry.issuer = [] → ':' ∉ entry.name) := by
  have hgiven : trimmed (queryItemValue (entryUrl entry) "issuer") = entry.issuer := by
    rw [query_issuer, h.issuer]
  by_cases hissuer : entry.issuer = []
  · have hpath : pathLabel (entryUrl entry).path = entry.name := by
      rw [entryUrl_path, if_pos hissuer]
      rfl
    rw [readLabel, hgiven, hpath, hissuer]
    by_cases hcolon : ':' ∈ entry.name
    · -- the front of the name becomes an issuer, and the rest has a colon less
      obtain ⟨front, back, hname, hfront⟩ := eq_append_cons_of_mem hcolon
      have hparts : labelParts entry.name = (trimmed front, trimmed back) := by
        rw [hname]
        exact labelParts_colon hfront back
      have hless : (trimmed back).count ':' < entry.name.count ':' := by
        rw [colons_trimmed, hname, count_append, count_cons_self]
        omega
      simp only [hparts, ne_eq, not_true_eq_false, if_false, hcolon, not_true_eq_false, not_mem_nil,
        not_false_eq_true, true_and, true_imp_iff, iff_false, not_and]
      intro hback hempty
      rw [hempty] at hback
      split at hback
      · exact h.named hback.symm
      · rw [hback] at hless
        exact Nat.lt_irrefl _ hless
    · simp only [labelParts_plain hcolon, h.name, h.named, if_false, ne_eq, not_true_eq_false, and_self, true_iff,
        not_mem_nil, not_false_eq_true, true_and]
      exact fun _ => hcolon
  · have hpath : pathLabel (entryUrl entry).path = entry.issuer ++ ':' :: entry.name := by
      rw [entryUrl_path, if_neg hissuer]
      rfl
    rw [readLabel, hgiven, hpath]
    by_cases hcolon : ':' ∈ entry.issuer
    · -- the rest of the issuer stands in the name, with a colon more
      obtain ⟨front, back, hsplit, hfront⟩ := eq_append_cons_of_mem hcolon
      have hparts : labelParts (entry.issuer ++ ':' :: entry.name) = (trimmed front, trimmed (back ++ ':' :: entry.name)) := by
        rw [hsplit, append_assoc, cons_append]
        exact labelParts_colon hfront _
      have hmore : entry.name.count ':' < (trimmed (back ++ ':' :: entry.name)).count ':' := by
        rw [colons_trimmed, count_append, count_cons_self]
        omega
      have hne : trimmed (back ++ ':' :: entry.name) ≠ [] := by
        intro hnil
        rw [hnil, count_nil] at hmore
        exact Nat.not_lt_zero _ hmore
      simp only [hparts, if_neg hne, hcolon, not_true_eq_false, false_and, iff_false, not_and]
      intro hname
      rw [hname] at hmore
      exact absurd hmore (Nat.lt_irrefl _)
    · simp only [labelParts_colon hcolon, h.name, h.named, if_false, ne_eq, hissuer, not_false_eq_true, if_true, and_self, hcolon, false_imp_iff]

/-- The entry in all that counts of it. -/
def SameInLink (entry out : Entry) : Prop :=
  out.name = entry.name ∧ out.issuer = entry.issuer ∧ out.secret = entry.secret ∧ out.algorithm = entry.algorithm ∧
    out.type = entry.type ∧ out.digits = entry.digits ∧ (entry.type = .TOTP → out.period = entry.period) ∧
    (entry.type = .HOTP → out.counter = entry.counter)

/-- **A link carries the whole entry just when its label is cut where it was joined**: no colon in the issuer, and
none in the name without one. -/
theorem link_keeps_iff (hcase : AsciiCase qt) (h : Linkable entry) (hurl : qt.ofText (trimmed (qt.toText (entryUrl entry))) = some (entryUrl entry)) :
    (∃ out, ParseFromLink qt (ExportToLink qt entry) = .ok out ∧ SameInLink entry out) ↔
    ':' ∉ entry.issuer ∧ (entry.issuer = [] → ':' ∉ entry.name) := by
  rw [parse_export_link hcase h hurl, ← label_keeps_iff h]
  constructor
  · rintro ⟨out, hout, hname, hissuer, -⟩
    cases hout
    exact ⟨hname, hissuer⟩
  · rintro ⟨hname, hissuer⟩
    exact ⟨readBack entry, rfl, hname, hissuer, rfl, rfl, rfl, rfl, fun htype => if_pos htype, fun htype => if_pos htype⟩

end Reading

/-! ## An issuer with a colon -/

def ticketEntry : Entry where
  name := "n".toList
  issuer := "a:b".toList
  secret := "JBSWY3DP".toList

/-- An entry of the kind the links carry. -/
def aliceEntry : Entry where
  name := "alice".toList
  issuer := "Example".toList
  secret := "JBSWY3DP".toList

/-- `QUrl` for the link of one entry alone. -/
def soleLink (link : String) (entry : Entry) : Qt where
  toText _ := link.toList
  ofText text := if text = link.toList then some (entryUrl entry) else none
  upper := List.map Char.toUpper
  lower := List.map Char.toLower

def ticketQt : Qt := soleLink "otpauth://totp/a:b:n?secret=JBSWY3DP&issuer=a:b&algorithm=SHA1&digits=6&period=30" ticketEntry

def aliceQt : Qt := soleLink "otpauth://totp/Example:alice?secret=JBSWY3DP&issuer=Example&algorithm=SHA1&digits=6&period=30" aliceEntry

theorem soleLink_case (link : String) (entry : Entry) : AsciiCase (soleLink link entry) :=
  ⟨fun _ _ => rfl, fun _ _ => rfl⟩

theorem ticket_linkable : Linkable ticketEntry where
  valid := by decide
  normal := by decide
  named := by decide
  name := by decide
  issuer := by decide
  counter := by decide
  counterWord := by decide

theorem alice_linkable : Linkable aliceEntry where
  valid := by decide
  normal := by decide
  named := by decide
  name := by decide
  issuer := by decide
  counter := by decide
  counterWord := by decide

/-- The rest of the issuer is in front of the name. -/
theorem ticket_renamed : Validate ticketEntry = [] ∧ NormalizeSecret ticketEntry.secret = ticketEntry.secret ∧
    trimmed ticketEntry.name = ticketEntry.name ∧ ticketEntry.name ≠ [] ∧ trimmed ticketEntry.issuer = ticketEntry.issuer ∧
    ticketQt.ofText (trimmed (ticketQt.toText (entryUrl ticketEntry))) = some (entryUrl ticketEntry) ∧
    (∃ out, ParseFromLink ticketQt (ExportToLink ticketQt ticketEntry) = .ok out ∧ out.name = "b:n".toList) ∧
    ¬∃ out, ParseFromLink ticketQt (ExportToLink ticketQt ticketEntry) = .ok out ∧ SameInLink ticketEntry out := by
  have hurl : ticketQt.ofText (trimmed (ticketQt.toText (entryUrl ticketEntry))) = some (entryUrl ticketEntry) := by
    decide
  have hcase : AsciiCase ticketQt := soleLink_case _ _
  have hparse := parse_export_link hcase ticket_linkable hurl
  refine ⟨ticket_linkable.valid, ticket_linkable.normal, ticket_linkable.name, ticket_linkable.named,
    ticket_linkable.issuer, hurl, ⟨readBack ticketEntry, hparse, by decide⟩, ?_⟩
  rintro ⟨out, hout, hname, -⟩
  rw [hparse] at hout
  cases hout
  exact absurd hname (by decide)

/-- The condition at both entries: the one with a colon in its issuer does not come back, the other does. -/
theorem ticket_link : ((∃ out, ParseFromLink ticketQt (ExportToLink ticketQt ticketEntry) = .ok out ∧ SameInLink ticketEntry out) ↔
    ':' ∉ ticketEntry.issuer ∧ (ticketEntry.issuer = [] → ':' ∉ ticketEntry.name)) ∧
    ∃ out, ParseFromLink aliceQt (ExportToLink aliceQt aliceEntry) = .ok out ∧ SameInLink aliceEntry out :=
  ⟨link_keeps_iff (soleLink_case _ _) ticket_linkable (by decide), (link_keeps_iff (soleLink_case _ _) alice_linkable (by decide)).2 (by decide)⟩

end Throne.Global.OTP
