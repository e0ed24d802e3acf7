import Throne.Lib.BitBytes
import Throne.Scanner.IpListAddressText

/-!
# Answers of a DNS server

`ParseDnsAnswers` and `IsDnsResponseFor` of `src/src/global/DnsProbe.cpp` over a packet that came from the
network. Every read is checked here: `Fault.outside` is a read at an index the packet does not have, and the
offset is an `int`, which wraps.

`answers_exact` says that no packet short enough for its offsets makes the reader read outside, and that a
response that is encoded as RFC 1035 has it gives the addresses of its answers, in order.
-/

namespace Throne.Global.DnsProbe

open Lib.Texts List
open Lib.BitBytes (valueOf)
open Scanner.IpListParse (dotted joinGroups shiftLeft_or ipListParseAddress wordOf address_dotted address_written)

/-- A run that does not come to a result. -/
inductive Fault where
  /-- A byte was read that the packet does not have. -/
  | outside
  /-- The loop over a name was not through. -/
  | unfinished

/-- The value of an `int` after an operation. -/
def int32 (n : Int) : Int := n.bmod (2 ^ 32)

section Reader

variable (payload : List UInt8)

def byteAt : Int → Except Fault Nat
  | .ofNat index =>
    match payload[index]? with
    | some byte => .ok byte.toNat
    | none => .error .outside
  | .negSucc _ => .error .outside

/-- Two bytes, the high one first. -/
def wordAt (index : Int) : Except Fault Nat := do
  let high ← byteAt payload index
  let low ← byteAt payload (int32 (index + 1))
  return high <<< 8 ||| low

/-- The offset behind a name: behind its zero or its pointer. -/
def skipName : Nat → Int → Except Fault Int
  | 0, _ => .error .unfinished
  | fuel + 1, offset =>
    if offset < payload.length then do
      let length ← byteAt payload offset
      if length &&& 0xc0 = 0xc0 then return int32 (offset + 2)
      else if length = 0 then return int32 (offset + 1)
      else skipName fuel (int32 (offset + (length + 1)))
    else return -1

/-- The offset behind so many questions, or none where the packet is cut. -/
def skipQuestions (fuel : Nat) : Nat → Int → Except Fault (Option Int)
  | 0, offset => return some offset
  | questions + 1, offset => do
    let offset ← skipName payload fuel offset
    if offset < 0 ∨ int32 (offset + 4) > payload.length then return none
    else skipQuestions fuel questions (int32 (offset + 4))

/-- So many words, one behind the other. -/
def wordsAt : Nat → Int → Except Fault (List Nat)
  | 0, _ => return []
  | count + 1, offset => do
    let word ← wordAt payload offset
    let words ← wordsAt count (int32 (offset + 2))
    return word :: words

/-- The text of the address of a record, for the two kinds that have one. -/
def addressAt (kind dataLength : Nat) (offset : Int) : Except Fault (List Text) :=
  if kind = 1 ∧ dataLength = 4 then do
    let a ← byteAt payload offset
    let b ← byteAt payload (int32 (offset + 1))
    let c ← byteAt payload (int32 (offset + 2))
    let d ← byteAt payload (int32 (offset + 3))
    return [dotted a b c d]
  else if kind = 28 ∧ dataLength = 16 then do
    let groups ← wordsAt payload 8 offset
    return [joinGroups groups]
  else return []

/-- The loop over the answers, with the addresses so far. -/
def readAnswers (fuel : Nat) : Nat → Int → List Text → Except Fault (List Text)
  | 0, _, addresses => return addresses
  | answers + 1, offset, addresses => do
    let offset ← skipName payload fuel offset
    if offset < 0 ∨ int32 (offset + 10) > payload.length then return addresses
    else
      let kind ← wordAt payload offset
      let dataLength ← wordAt payload (int32 (offset + 8))
      let offset := int32 (offset + 10)
      if int32 (offset + dataLength) > payload.length then return addresses
      else
        let address ← addressAt payload kind dataLength offset
        readAnswers fuel answers (int32 (offset + dataLength)) (addresses ++ address)

def ParseDnsAnswers (fuel : Nat) : Except Fault (List Text) :=
  if payload.length < 12 then return []
  else do
    let questions ← wordAt payload 4
    let answers ← wordAt payload 6
    match ← skipQuestions payload fuel questions 12 with
    | none => return []
    | some offset => readAnswers payload fuel answers offset []

/-- Whether the packet is the answer to a query, and the error that is shown where it is not. -/
def IsDnsResponseFor (id : Nat) : Except Fault (Option Text) :=
  if payload.length < 12 then return some "ответ короче заголовка".toList
  else do
    let answerId ← wordAt payload 0
    if answerId ≠ id then return some "ответ от другого запроса".toList
    else
      let flags ← byteAt payload 2
      if flags &&& 0x80 = 0 then return some "это не ответ".toList
      else
        let rcode ← byteAt payload 3
        if rcode &&& 0x0f = 2 then return some "сервер ответил отказом (SERVFAIL)".toList
        else if rcode &&& 0x0f = 5 then return some "сервер отказался отвечать (REFUSED)".toList
        else return none

end Reader

/-! ## Responses as they are encoded -/

/-- How a name ends: with the root, or with a pointer to a name that was there before. -/
inductive NameEnd where
  | zero
  | pointer (high low : UInt8) (marked : 0xc0 ≤ high.toNat)

def NameEnd.encode : NameEnd → List UInt8
  | .zero => [0]
  | .pointer high low _ => [high, low]

structure Label where
  bytes : List UInt8
  length_pos : 0 < bytes.length
  length_le : bytes.length ≤ 63

def Label.encode (label : Label) : List UInt8 := UInt8.ofNat label.bytes.length :: label.bytes

structure Name where
  labels : List Label
  ending : NameEnd

def Name.encode (name : Name) : List UInt8 := name.labels.flatMap Label.encode ++ name.ending.encode

/-- A number of two bytes. -/
def encodeWord (word : UInt16) : List UInt8 := [UInt8.ofNat (word.toNat / 256), UInt8.ofNat word.toNat]

structure Question where
  name : Name
  kind : UInt16
  cls : UInt16

def Question.encode (question : Question) : List UInt8 := question.name.encode ++ encodeWord question.kind ++ encodeWord question.cls

structure Record where
  name : Name
  kind : UInt16
  cls : UInt16
  ttlHigh : UInt16
  ttlLow : UInt16
  data : List UInt8
  length_lt : data.length < 65536

def Record.encode (record : Record) : List UInt8 :=
  record.name.encode ++ encodeWord record.kind ++ encodeWord record.cls ++ encodeWord record.ttlHigh ++
    encodeWord record.ttlLow ++ encodeWord (UInt16.ofNat record.data.length) ++ record.data

/-- An address: four octets, or eight groups. -/
inductive Address where
  | v4 (a b c d : UInt8)
  | v6 (groups : List Nat)

/-- The numbers of two bytes of which some data are made. -/
def words : List UInt8 → List Nat
  | high :: low :: rest => (high.toNat * 256 + low.toNat) :: words rest
  | _ => []

/-- The address of an A record or of an AAAA record. -/
def Record.address (record : Record) : Option Address :=
  if record.kind = 1 then
    match record.data with
    | [a, b, c, d] => some (.v4 a b c d)
    | _ => none
  else if record.kind = 28 ∧ record.data.length = 16 then some (.v6 (words record.data))
  else none

def Address.text : Address → Text
  | .v4 a b c d => dotted a.toNat b.toNat c.toNat d.toNat
  | .v6 groups => joinGroups groups

/-- A response: behind the answers are the authorities and what else there is. -/
structure Response where
  id : UInt16
  flags : UInt16
  questions : List Question
  answers : List Record
  authorities : UInt16
  additional : UInt16
  rest : List UInt8
  questions_lt : questions.length < 65536
  answers_lt : answers.length < 65536

def Response.encode (response : Response) : List UInt8 :=
  encodeWord response.id ++ encodeWord response.flags ++
    encodeWord (UInt16.ofNat response.questions.length) ++ encodeWord (UInt16.ofNat response.answers.length) ++
    encodeWord response.authorities ++ encodeWord response.additional ++
    response.questions.flatMap Question.encode ++ response.answers.flatMap Record.encode ++ response.rest

def Response.addresses (response : Response) : List Address := response.answers.filterMap Record.address

/-- A packet that is short enough for every offset the reader makes. -/
def Fits (payload : List UInt8) : Prop := payload.length + 65535 < 2 ^ 31

/-! ## Single reads -/

@[simp] theorem ok_bind {α β : Type} (a : α) (f : α → Except Fault β) : (Except.ok a >>= f) = f a := rfl

@[simp] theorem pure_ok {α : Type} (a : α) : (pure a : Except Fault α) = .ok a := rfl

theorem int32_small {n : Int} (hpos : 0 ≤ n) (hlt : n < 2 ^ 31) : int32 n = n :=
  Int.bmod_eq_of_le (by omega) (by omega)

theorem wordValue_lt {high low : Nat} (hhigh : high < 256) (hlow : low < 256) : high <<< 8 ||| low < 65536 := by
  rw [shiftLeft_or high (show low < 2 ^ 8 from hlow)]
  omega

variable {index : Int} {count : Nat} {byte : UInt8}

section Reads

variable {payload : List UInt8}

theorem byteAt_get (hpos : 0 ≤ index) (h : payload[index.toNat]? = some byte) : byteAt payload index = .ok byte.toNat := by
  obtain ⟨i, rfl⟩ := Int.eq_ofNat_of_zero_le hpos
  have hget : payload[i]? = some byte := h
  show (match payload[i]? with | some byte => Except.ok byte.toNat | none => .error Fault.outside) = _
  rw [hget]

theorem byteAt_inside (hpos : 0 ≤ index) (hlt : index < payload.length) : ∃ byte, byteAt payload index = .ok byte ∧ byte < 256 := by
  have hbound : index.toNat < payload.length := by omega
  exact ⟨payload[index.toNat].toNat, byteAt_get hpos (getElem?_eq_getElem hbound), UInt8.toNat_lt _⟩

theorem wordAt_inside (hfits : Fits payload) (hpos : 0 ≤ index) (hlt : index + 1 < payload.length) :
    ∃ word, wordAt payload index = .ok word ∧ word < 65536 := by
  unfold Fits at hfits
  obtain ⟨high, hhigh, hhighlt⟩ := byteAt_inside hpos (show index < payload.length by omega)
  obtain ⟨low, hlow, hlowlt⟩ := byteAt_inside (show 0 ≤ index + 1 by omega) hlt
  refine ⟨high <<< 8 ||| low, ?_, wordValue_lt hhighlt hlowlt⟩
  rw [wordAt, hhigh, ok_bind, int32_small (by omega) (by omega), hlow]
  rfl

theorem wordsAt_inside (hfits : Fits payload) {offset : Int} (hpos : 0 ≤ offset)
    (hinside : offset + 2 * count ≤ payload.length) : ∃ words, wordsAt payload count offset = .ok words := by
  have hbound := hfits
  unfold Fits at hbound
  induction count generalizing offset with
  | zero => exact ⟨[], rfl⟩
  | succ count ih =>
    obtain ⟨word, hword, -⟩ := wordAt_inside hfits hpos (by omega)
    obtain ⟨words, hwords⟩ := ih (show 0 ≤ offset + 2 by omega) (by omega)
    refine ⟨word :: words, ?_⟩
    rw [wordsAt, hword, ok_bind, int32_small (by omega) (by omega), hwords]
    rfl

/-! ## No read outside -/

/-- The loop over a name ends, and the offset it gives is no more than one behind the packet. -/
theorem skipName_ends (hfits : Fits payload) (offset : Int) (hpos : 0 ≤ offset) :
    ∃ result : Int, (result = -1 ∨ 0 ≤ result ∧ result ≤ payload.length + 1) ∧
    ∀ fuel : Nat, 0 < fuel → payload.length < fuel + offset → skipName payload fuel offset = .ok result := by
  have hbound := hfits
  unfold Fits at hbound
  by_cases hlt : offset < payload.length
  · obtain ⟨length, hlength, hsmall⟩ := byteAt_inside hpos hlt
    by_cases hpointer : length &&& 0xc0 = 0xc0
    · refine ⟨offset + 2, .inr (by omega), fun fuel hfuel _ => ?_⟩
      cases fuel with
      | zero => exact absurd hfuel (Nat.lt_irrefl 0)
      | succ fuel =>
        rw [skipName, if_pos hlt, hlength, ok_bind, if_pos hpointer, int32_small (by omega) (by omega)]
        rfl
    · by_cases hzero : length = 0
      · refine ⟨offset + 1, .inr (by omega), fun fuel hfuel _ => ?_⟩
        cases fuel with
        | zero => exact absurd hfuel (Nat.lt_irrefl 0)
        | succ fuel =>
          rw [skipName, if_pos hlt, hlength, ok_bind, if_neg hpointer, if_pos hzero, int32_small (by omega) (by omega)]
          rfl
      · obtain ⟨result, hresult, hrun⟩ := skipName_ends hfits (offset + (length + 1)) (by omega)
        refine ⟨result, hresult, fun fuel hfuel henough => ?_⟩
        cases fuel with
        | zero => exact absurd hfuel (Nat.lt_irrefl 0)
        | succ fuel =>
          rw [skipName, if_pos hlt, hlength, ok_bind, if_neg hpointer, if_neg hzero, int32_small (by omega) (by omega)]
          exact hrun fuel (by omega) (by omega)
  · refine ⟨-1, .inl rfl, fun fuel hfuel _ => ?_⟩
    cases fuel with
    | zero => exact absurd hfuel (Nat.lt_irrefl 0)
    | succ fuel =>
      rw [skipName, if_neg hlt]
      rfl
termination_by (payload.length - offset).toNat
decreasing_by omega

theorem skipQuestions_ends (hfits : Fits payload) (questions : Nat) (offset : Int) (hpos : 0 ≤ offset) :
    ∃ result : Option Int, (∀ next, result = some next → 0 ≤ next) ∧
    ∀ fuel : Nat, payload.length < fuel → skipQuestions payload fuel questions offset = .ok result := by
  have hbound := hfits
  unfold Fits at hbound
  induction questions generalizing offset with
  | zero => exact ⟨some offset, fun next hnext => Option.some.inj hnext ▸ hpos, fun fuel _ => rfl⟩
  | succ questions ih =>
    obtain ⟨behind, hbehind, hname⟩ := skipName_ends hfits offset hpos
    by_cases hcut : behind < 0 ∨ int32 (behind + 4) > payload.length
    · refine ⟨none, fun next hnext => absurd hnext (by simp), fun fuel hfuel => ?_⟩
      rw [skipQuestions, hname fuel (by omega) (by omega), ok_bind, if_pos hcut]
      rfl
    · obtain ⟨result, hresult, hrun⟩ := ih (behind + 4) (by omega)
      refine ⟨result, hresult, fun fuel hfuel => ?_⟩
      rw [skipQuestions, hname fuel (by omega) (by omega), ok_bind, if_neg hcut, int32_small (by omega) (by omega)]
      exact hrun fuel hfuel

theorem addressAt_inside (hfits : Fits payload) (kind dataLength : Nat) {offset : Int} (hpos : 0 ≤ offset)
    (hinside : offset + dataLength ≤ payload.length) : ∃ address, addressAt payload kind dataLength offset = .ok address := by
  have hbound := hfits
  unfold Fits at hbound
  unfold addressAt
  split
  · next hv4 =>
    obtain ⟨a, ha, -⟩ := byteAt_inside hpos (show offset < payload.length by omega)
    obtain ⟨b, hb, -⟩ := byteAt_inside (show 0 ≤ offset + 1 by omega) (show offset + 1 < payload.length by omega)
    obtain ⟨c, hc, -⟩ := byteAt_inside (show 0 ≤ offset + 2 by omega) (show offset + 2 < payload.length by omega)
    obtain ⟨d, hd, -⟩ := byteAt_inside (show 0 ≤ offset + 3 by omega) (show offset + 3 < payload.length by omega)
    refine ⟨[dotted a b c d], ?_⟩
    rw [ha, ok_bind, int32_small (by omega) (by omega), hb, ok_bind, int32_small (by omega) (by omega), hc,
      ok_bind, int32_small (by omega) (by omega), hd]
    rfl
  · split
    · next hv6 =>
      obtain ⟨groups, hgroups⟩ := wordsAt_inside hfits hpos (show offset + 2 * (8 : Nat) ≤ payload.length by omega)
      exact ⟨[joinGroups groups], by rw [hgroups]; rfl⟩
    · exact ⟨[], rfl⟩

theorem readAnswers_ends (hfits : Fits payload) (answers : Nat) (offset : Int) (hpos : 0 ≤ offset) (addresses : List Text) :
    ∃ result, ∀ fuel : Nat, payload.length < fuel → readAnswers payload fuel answers offset addresses = .ok result := by
  have hbound := hfits
  unfold Fits at hbound
  induction answers generalizing offset addresses with
  | zero => exact ⟨addresses, fun fuel _ => rfl⟩
  | succ answers ih =>
    obtain ⟨behind, hbehind, hname⟩ := skipName_ends hfits offset hpos
    by_cases hcut : behind < 0 ∨ int32 (behind + 10) > payload.length
    · refine ⟨addresses, fun fuel hfuel => ?_⟩
      rw [readAnswers, hname fuel (by omega) (by omega), ok_bind, if_pos hcut]
      rfl
    · have hhead : int32 (behind + 10) = behind + 10 := int32_small (by omega) (by omega)
      have hinside : behind + 10 ≤ payload.length := by omega
      obtain ⟨kind, hkind, -⟩ := wordAt_inside hfits (show 0 ≤ behind by omega) (show behind + 1 < payload.length by omega)
      obtain ⟨dataLength, hlength, hlengthlt⟩ := wordAt_inside hfits (show 0 ≤ behind + 8 by omega) (show behind + 8 + 1 < payload.length by omega)
      have hdata : int32 (behind + 10 + dataLength) = behind + 10 + dataLength := int32_small (by omega) (by omega)
      by_cases hlong : behind + 10 + dataLength > payload.length
      · refine ⟨addresses, fun fuel hfuel => ?_⟩
        rw [readAnswers, hname fuel (by omega) (by omega), ok_bind, if_neg hcut, hkind, ok_bind, int32_small (by omega) (by omega), hlength, ok_bind]
        dsimp only
        rw [hhead, hdata, if_pos hlong]
        rfl
      · obtain ⟨address, haddress⟩ := addressAt_inside hfits kind dataLength (show 0 ≤ behind + 10 by omega) (by omega)
        obtain ⟨result, hrun⟩ := ih (behind + 10 + dataLength) (by omega) (addresses ++ address)
        refine ⟨result, fun fuel hfuel => ?_⟩
        rw [readAnswers, hname fuel (by omega) (by omega), ok_bind, if_neg hcut, hkind, ok_bind, int32_small (by omega) (by omega), hlength, ok_bind]
        dsimp only
        rw [hhead, hdata, if_neg hlong, haddress, ok_bind]
        exact hrun fuel hfuel

/-- A packet that fits is read to the end, and inside. -/
theorem parse_ends (hfits : Fits payload) : ∃ addresses, ∀ fuel : Nat, payload.length < fuel → ParseDnsAnswers payload fuel = .ok addresses := by
  by_cases hshort : payload.length < 12
  · exact ⟨[], fun fuel _ => if_pos hshort⟩
  · obtain ⟨questions, hquestions, -⟩ := wordAt_inside hfits (show 0 ≤ (4 : Int) by omega) (show (4 : Int) + 1 < payload.length by omega)
    obtain ⟨answers, hanswers, -⟩ := wordAt_inside hfits (show 0 ≤ (6 : Int) by omega) (show (6 : Int) + 1 < payload.length by omega)
    obtain ⟨behind, hbehind, hskip⟩ := skipQuestions_ends hfits questions 12 (by omega)
    cases behind with
    | none =>
      refine ⟨[], fun fuel hfuel => ?_⟩
      rw [ParseDnsAnswers, if_neg hshort, hquestions, ok_bind, hanswers, ok_bind, hskip fuel hfuel]
      rfl
    | some offset =>
      obtain ⟨result, hrun⟩ := readAnswers_ends hfits answers offset (hbehind offset rfl) []
      refine ⟨result, fun fuel hfuel => ?_⟩
      rw [ParseDnsAnswers, if_neg hshort, hquestions, ok_bind, hanswers, ok_bind, hskip fuel hfuel, ok_bind]
      exact hrun fuel hfuel

/-- The check before reads the header alone. -/
theorem isResponse_ends (payload : List UInt8) (id : Nat) : ∃ error, IsDnsResponseFor payload id = .ok error := by
  unfold IsDnsResponseFor
  split
  · exact ⟨_, rfl⟩
  · next hlong =>
    obtain ⟨high, hhigh, -⟩ := byteAt_inside (show 0 ≤ (0 : Int) by omega) (show (0 : Int) < payload.length by omega)
    obtain ⟨low, hlow, -⟩ := byteAt_inside (show 0 ≤ (1 : Int) by omega) (show (1 : Int) < payload.length by omega)
    obtain ⟨flags, hflags, -⟩ := byteAt_inside (show 0 ≤ (2 : Int) by omega) (show (2 : Int) < payload.length by omega)
    obtain ⟨rcode, hrcode, -⟩ := byteAt_inside (show 0 ≤ (3 : Int) by omega) (show (3 : Int) < payload.length by omega)
    have hword : wordAt payload 0 = .ok (high <<< 8 ||| low) := by
      rw [wordAt, hhigh, ok_bind, int32_small (by decide) (by decide), show (0 : Int) + 1 = 1 from rfl, hlow]
      rfl
    rw [hword, ok_bind]
    split
    · exact ⟨_, rfl⟩
    · rw [hflags, ok_bind]
      split
      · exact ⟨_, rfl⟩
      · rw [hrcode, ok_bind]
        split
        · exact ⟨_, rfl⟩
        · split <;> exact ⟨_, rfl⟩

/-! ## Encoded responses -/

variable {front tail : List UInt8}

theorem byteAt_behind (hpayload : payload = front ++ tail) {k : Nat}
    (h : tail[k]? = some byte) : byteAt payload (front.length + k) = .ok byte.toNat := by
  apply byteAt_get (by omega)
  rw [show ((front.length : Int) + k).toNat = front.length + k by omega, hpayload,
    getElem?_append_right (Nat.le_add_right _ _), Nat.add_sub_cancel_left]
  exact h

/-- The first byte behind what was read. -/
theorem byteAt_next (hpayload : payload = front ++ byte :: tail) : byteAt payload front.length = .ok byte.toNat := by
  have hread := byteAt_behind (k := 0) hpayload getElem?_cons_zero
  rwa [Int.natCast_zero, Int.add_zero] at hread

theorem wordAt_behind (hfits : Fits payload) {high low : UInt8} (hpayload : payload = front ++ high :: low :: tail) :
    wordAt payload front.length = .ok (high.toNat * 256 + low.toNat) := by
  have hbound := hfits
  unfold Fits at hbound
  have hlength : front.length + 2 ≤ payload.length := by
    rw [hpayload, length_append, length_cons, length_cons]
    omega
  have hlow : byteAt payload (front.length + 1) = .ok low.toNat := byteAt_behind (k := 1) hpayload rfl
  rw [wordAt, byteAt_next hpayload, ok_bind, int32_small (by omega) (by omega), hlow, ok_bind, pure_ok,
    shiftLeft_or _ (show low.toNat < 2 ^ 8 from UInt8.toNat_lt low)]
  rfl

theorem wordAt_encodeWord (hfits : Fits payload) {word : UInt16}
    (hpayload : payload = front ++ encodeWord word ++ tail) : wordAt payload front.length = .ok word.toNat := by
  have hword : word.toNat < 65536 := UInt16.toNat_lt word
  rw [append_assoc] at hpayload
  rw [wordAt_behind hfits hpayload, UInt8.toNat_ofNat', UInt8.toNat_ofNat']
  congr 1
  omega

theorem wordsAt_behind (hfits : Fits payload) {data : List UInt8} (hpayload : payload = front ++ data ++ tail) (hlength : data.length = 2 * count) :
    wordsAt payload count front.length = .ok (words data) := by
  have hbound := hfits
  unfold Fits at hbound
  induction count generalizing front data with
  | zero =>
    rw [length_eq_zero_iff.1 hlength]
    rfl
  | succ count ih =>
    match data, hlength with
    | high :: low :: data, hlength =>
      have hinside : front.length + 2 ≤ payload.length := by
        rw [hpayload]
        simp only [length_append, length_cons]
        omega
      have hrest : payload = (front ++ [high, low]) ++ data ++ tail := by
        rw [hpayload]
        simp
      have hfirst : payload = front ++ high :: low :: (data ++ tail) := by
        rw [hpayload]
        simp
      have hnext : int32 ((front.length : Int) + 2) = ((front ++ [high, low]).length : Int) := by
        rw [int32_small (by omega) (by omega), length_append]
        rfl
      rw [wordsAt, wordAt_behind hfits hfirst, ok_bind, hnext, ih hrest (by simp only [length_cons] at hlength; omega)]
      rfl

variable {fuel : Nat}

theorem skipName_encode (hfits : Fits payload) (ending : NameEnd) (labels : List Label)
    (hpayload : payload = front ++ Name.encode ⟨labels, ending⟩ ++ tail) (hfuel : labels.length < fuel) :
    skipName payload fuel front.length = .ok ((front ++ Name.encode ⟨labels, ending⟩).length : Int) := by
  have hbound := hfits
  unfold Fits at hbound
  induction labels generalizing front fuel with
  | nil =>
    obtain ⟨fuel, rfl⟩ := Nat.exists_eq_add_of_lt hfuel
    have hlength := congrArg List.length hpayload
    cases ending with
    | zero =>
      simp only [Name.encode, NameEnd.encode, flatMap_nil, nil_append, length_append, length_cons, length_nil] at hlength ⊢
      have hfirst : payload = front ++ 0 :: tail := by
        rw [hpayload]
        simp [Name.encode, NameEnd.encode]
      have hread : byteAt payload front.length = .ok 0 := byteAt_next hfirst
      rw [skipName, if_pos (by omega), hread, ok_bind, if_neg (by decide), if_pos rfl, int32_small (by omega) (by omega)]
      rfl
    | pointer high low marked =>
      simp only [Name.encode, NameEnd.encode, flatMap_nil, nil_append, length_append, length_cons, length_nil] at hlength ⊢
      have hfirst : payload = front ++ high :: low :: tail := by
        rw [hpayload]
        simp [Name.encode, NameEnd.encode]
      have hmarked : high.toNat &&& 0xc0 = 0xc0 := by
        have hall : ∀ n < 256, 0xc0 ≤ n → n &&& 0xc0 = 0xc0 := by decide +kernel
        exact hall _ (UInt8.toNat_lt high) marked
      rw [skipName, if_pos (by omega), byteAt_next hfirst, ok_bind, if_pos hmarked, int32_small (by omega) (by omega)]
      rfl
  | cons label labels ih =>
    obtain ⟨fuel, rfl⟩ : ∃ rest, fuel = rest + 1 := ⟨fuel - 1, by omega⟩
    have hpos := label.length_pos
    have hle := label.length_le
    have hsplit : Name.encode ⟨label :: labels, ending⟩ = label.encode ++ Name.encode ⟨labels, ending⟩ := by
      simp [Name.encode]
    have hrest : payload = (front ++ label.encode) ++ Name.encode ⟨labels, ending⟩ ++ tail := by
      rw [hpayload, hsplit]
      simp
    have hlabel : label.encode.length = label.bytes.length + 1 := rfl
    have hlength := congrArg List.length hrest
    simp only [length_append] at hlength
    have hfirst : payload = front ++ UInt8.ofNat label.bytes.length :: (label.bytes ++ Name.encode ⟨labels, ending⟩ ++ tail) := by
      rw [hrest]
      simp [Label.encode]
    have hread : byteAt payload front.length = .ok label.bytes.length := by
      rw [byteAt_next hfirst, UInt8.toNat_ofNat', Nat.mod_eq_of_lt (by omega)]
    have hplain : ¬label.bytes.length &&& 0xc0 = 0xc0 := by
      have hand : label.bytes.length &&& 0xc0 ≤ label.bytes.length := Nat.and_le_left
      omega
    have hnext : int32 ((front.length : Int) + (label.bytes.length + 1)) = ((front ++ label.encode).length : Int) := by
      rw [int32_small (by omega) (by omega), length_append, hlabel]
      rfl
    rw [skipName, if_pos (by omega), hread, ok_bind, if_neg hplain, if_neg (by omega), hnext, ih hrest (by simpa using hfuel), hsplit, append_assoc]

/-- A name has a byte for each of its labels, and one more. -/
theorem labels_lt_encode (name : Name) : name.labels.length < name.encode.length := by
  obtain ⟨labels, ending⟩ := name
  induction labels with
  | nil => cases ending <;> exact Nat.succ_pos _
  | cons label labels ih =>
    have hsplit : Name.encode ⟨label :: labels, ending⟩ = label.encode ++ Name.encode ⟨labels, ending⟩ := by
      simp [Name.encode]
    have hlabel : label.encode.length = label.bytes.length + 1 := rfl
    rw [hsplit, length_append, length_cons]
    dsimp only at ih
    omega

/-- A name in front of what is left of the packet. -/
theorem skipName_behind (hfits : Fits payload) {name : Name} (hpayload : payload = front ++ name.encode ++ tail) (hfuel : payload.length < fuel) :
    skipName payload fuel front.length = .ok ((front ++ name.encode).length : Int) := by
  have hlabels := labels_lt_encode name
  have hlength := congrArg List.length hpayload
  simp only [length_append] at hlength
  exact skipName_encode hfits name.ending name.labels hpayload (by omega)

theorem skipQuestions_encode (hfits : Fits payload) (questions : List Question)
    (hpayload : payload = front ++ questions.flatMap Question.encode ++ tail)
    (hfuel : payload.length < fuel) : skipQuestions payload fuel questions.length front.length =
    .ok (some ((front ++ questions.flatMap Question.encode).length : Int)) := by
  have hbound := hfits
  unfold Fits at hbound
  induction questions generalizing front with
  | nil => simp [skipQuestions]
  | cons question questions ih =>
    rw [flatMap_cons] at hpayload ⊢
    have hname : payload = front ++ question.name.encode ++ (encodeWord question.kind ++ encodeWord question.cls ++
        questions.flatMap Question.encode ++ tail) := by
      rw [hpayload]
      simp [Question.encode]
    have hrest : payload = (front ++ question.encode) ++ questions.flatMap Question.encode ++ tail := by
      rw [hpayload]
      simp
    have hencode : (front ++ question.encode).length = (front ++ question.name.encode).length + 4 := by
      simp [Question.encode, encodeWord, Nat.add_assoc]
    have hlength := congrArg List.length hrest
    rw [length_append, length_append] at hlength
    have hnext : int32 (((front ++ question.name.encode).length : Int) + 4) = ((front ++ question.encode).length : Int) := by
      rw [int32_small (by omega) (by omega), hencode]
      rfl
    rw [length_cons, skipQuestions, skipName_behind hfits hname hfuel, ok_bind, hnext, if_neg (by omega), ih hrest, append_assoc]

/-- The address of a record is read from its data. -/
theorem addressAt_encode (hfits : Fits payload) (record : Record) (hpayload : payload = front ++ record.data ++ tail) :
    addressAt payload record.kind.toNat record.data.length front.length = .ok (record.address.map Address.text).toList := by
  have hbound := hfits
  unfold Fits at hbound
  have hlength := congrArg List.length hpayload
  simp only [length_append] at hlength
  have hkind (n : UInt16) : record.kind.toNat = n.toNat ↔ record.kind = n := UInt16.toNat_inj
  unfold addressAt Record.address
  by_cases hv4 : record.kind = 1
  · rw [if_pos hv4]
    by_cases hfour : record.data.length = 4
    · rw [if_pos ⟨(hkind 1).2 hv4, hfour⟩]
      match hdata : record.data, hfour with
      | [a, b, c, d], _ =>
        rw [hdata] at hpayload hlength
        rw [append_assoc] at hpayload
        simp only [length_cons, length_nil] at hlength
        have hb : byteAt payload (front.length + 1) = .ok b.toNat := byteAt_behind (k := 1) hpayload rfl
        have hc : byteAt payload (front.length + 2) = .ok c.toNat := byteAt_behind (k := 2) hpayload rfl
        have hd : byteAt payload (front.length + 3) = .ok d.toNat := byteAt_behind (k := 3) hpayload rfl
        rw [byteAt_next hpayload, ok_bind, int32_small (by omega) (by omega), hb, ok_bind,
          int32_small (by omega) (by omega), hc, ok_bind, int32_small (by omega) (by omega), hd]
        rfl
    · rw [if_neg fun h => hfour h.2, if_neg]
      · split
        · next a b c d hdata => exact absurd (congrArg List.length hdata) hfour
        · rfl
      · intro h
        rw [hv4] at h
        exact absurd h.1 (by decide)
  · rw [if_neg fun h => hv4 ((hkind 1).1 h.1), if_neg hv4]
    by_cases hv6 : record.kind = 28 ∧ record.data.length = 16
    · rw [if_pos ⟨(hkind 28).2 hv6.1, hv6.2⟩, if_pos hv6, wordsAt_behind hfits hpayload hv6.2]
      rfl
    · rw [if_neg fun h => hv6 ⟨(hkind 28).1 h.1, h.2⟩, if_neg hv6]
      rfl

theorem readAnswers_encode (hfits : Fits payload) (answers : List Record)
    (hpayload : payload = front ++ answers.flatMap Record.encode ++ tail) (addresses : List Text)
    (hfuel : payload.length < fuel) : readAnswers payload fuel answers.length front.length addresses =
    .ok (addresses ++ (answers.filterMap Record.address).map Address.text) := by
  have hbound := hfits
  unfold Fits at hbound
  induction answers generalizing front addresses with
  | nil => simp [readAnswers]
  | cons record answers ih =>
    rw [flatMap_cons] at hpayload
    have hdatalt := record.length_lt
    -- the record, cut where the reader stops
    obtain ⟨head, hhead⟩ : ∃ head, front ++ record.name.encode = head := ⟨_, rfl⟩
    obtain ⟨front', hfront'⟩ : ∃ front', head ++ encodeWord record.kind ++ encodeWord record.cls ++
        encodeWord record.ttlHigh ++ encodeWord record.ttlLow = front' := ⟨_, rfl⟩
    obtain ⟨count, hcount⟩ : ∃ count, encodeWord (UInt16.ofNat record.data.length) = count := ⟨_, rfl⟩
    have hencode : front ++ record.encode = front' ++ count ++ record.data := by
      simp [Record.encode, ← hhead, ← hfront', ← hcount]
    have hrest : payload = (front' ++ count ++ record.data) ++ answers.flatMap Record.encode ++ tail := by
      rw [hpayload, ← hencode]
      simp
    have hfour : front'.length = head.length + 8 := by
      rw [← hfront']
      simp [encodeWord]
    have hten : (front' ++ count).length = head.length + 10 := by
      rw [length_append, hfour, ← hcount]
      rfl
    have hlength := congrArg List.length hrest
    simp only [length_append] at hlength hten
    have hname : skipName payload fuel front.length = .ok (head.length : Int) := by
      have hcut : payload = front ++ record.name.encode ++ (encodeWord record.kind ++ encodeWord record.cls ++
          encodeWord record.ttlHigh ++ encodeWord record.ttlLow ++ count ++ record.data ++
          answers.flatMap Record.encode ++ tail) := by
        rw [hrest, ← hfront', ← hhead]
        simp
      rw [← hhead]
      exact skipName_behind hfits hcut hfuel
    have hkind : wordAt payload head.length = .ok record.kind.toNat := by
      have hcut : payload = head ++ encodeWord record.kind ++ (encodeWord record.cls ++ encodeWord record.ttlHigh ++
          encodeWord record.ttlLow ++ count ++ record.data ++ answers.flatMap Record.encode ++ tail) := by
        rw [hrest, ← hfront']
        simp
      exact wordAt_encodeWord hfits hcut
    have hdata : wordAt payload ((head.length : Int) + 8) = .ok record.data.length := by
      have hcut : payload = front' ++ encodeWord (UInt16.ofNat record.data.length) ++ (record.data ++ answers.flatMap Record.encode ++ tail) := by
        rw [hrest, hcount]
        simp
      have hword := wordAt_encodeWord hfits hcut
      rw [hfour, UInt16.toNat_ofNat', Nat.mod_eq_of_lt hdatalt] at hword
      exact hword
    have hstart : int32 ((head.length : Int) + 10) = ((front' ++ count).length : Int) := by
      rw [int32_small (by omega) (by omega), length_append, hten]
      rfl
    have hend : int32 (((front' ++ count).length : Int) + record.data.length) = ((front' ++ count ++ record.data).length : Int) := by
      have hsum : (front' ++ count ++ record.data).length = (front' ++ count).length + record.data.length := length_append
      rw [int32_small (by simp only [length_append]; omega) (by simp only [length_append]; omega), hsum]
      rfl
    have haddress : addressAt payload record.kind.toNat record.data.length (front' ++ count).length =
        .ok (record.address.map Address.text).toList := by
      have hcut : payload = (front' ++ count) ++ record.data ++ (answers.flatMap Record.encode ++ tail) := by
        rw [hrest]
        simp
      exact addressAt_encode hfits record hcut
    rw [length_cons, readAnswers, hname, ok_bind, hstart, if_neg (by simp only [length_append]; omega), hkind,
      ok_bind, int32_small (by omega) (by omega), hdata, ok_bind]
    dsimp only
    rw [hend, if_neg (by simp only [length_append]; omega), haddress, ok_bind, ih hrest, append_assoc]
    cases hrecord : record.address with
    | none => rw [filterMap_cons_none hrecord]; rfl
    | some address => rw [filterMap_cons_some hrecord]; rfl

/-- An encoded response that fits gives the addresses of its answers. -/
theorem parse_encode (response : Response) (hfits : Fits response.encode) (hfuel : response.encode.length < fuel) :
    ParseDnsAnswers response.encode fuel = .ok (response.addresses.map Address.text) := by
  obtain ⟨questions, hquestions⟩ : ∃ questions, response.questions.flatMap Question.encode = questions := ⟨_, rfl⟩
  obtain ⟨answers, hanswers⟩ : ∃ answers, response.answers.flatMap Record.encode = answers := ⟨_, rfl⟩
  obtain ⟨header, hheader⟩ : ∃ header, encodeWord response.id ++ encodeWord response.flags ++
    encodeWord (UInt16.ofNat response.questions.length) ++ encodeWord (UInt16.ofNat response.answers.length) ++
    encodeWord response.authorities ++ encodeWord response.additional = header := ⟨_, rfl⟩
  have hpayload : response.encode = header ++ questions ++ answers ++ response.rest := by
    rw [← hheader, ← hquestions, ← hanswers, Response.encode]
  have htwelve : header.length = 12 := by
    rw [← hheader]
    rfl
  have hlong : ¬response.encode.length < 12 := by
    rw [hpayload]
    simp only [length_append]
    omega
  have hcount : wordAt response.encode 4 = .ok response.questions.length := by
    have hcut : response.encode = (encodeWord response.id ++ encodeWord response.flags) ++
        encodeWord (UInt16.ofNat response.questions.length) ++ (encodeWord (UInt16.ofNat response.answers.length) ++
        encodeWord response.authorities ++ encodeWord response.additional ++ questions ++ answers ++
        response.rest) := by
      rw [hpayload, ← hheader]
      simp
    have hword := wordAt_encodeWord hfits hcut
    rw [UInt16.toNat_ofNat', Nat.mod_eq_of_lt response.questions_lt] at hword
    exact hword
  have hcount' : wordAt response.encode 6 = .ok response.answers.length := by
    have hcut : response.encode = (encodeWord response.id ++ encodeWord response.flags ++
        encodeWord (UInt16.ofNat response.questions.length)) ++ encodeWord (UInt16.ofNat response.answers.length) ++
        (encodeWord response.authorities ++ encodeWord response.additional ++ questions ++ answers ++
        response.rest) := by
      rw [hpayload, ← hheader]
      simp
    have hword := wordAt_encodeWord hfits hcut
    rw [UInt16.toNat_ofNat', Nat.mod_eq_of_lt response.answers_lt] at hword
    exact hword
  have hskip : skipQuestions response.encode fuel response.questions.length 12 = .ok (some ((header ++ questions).length : Int)) := by
    have hcut : response.encode = header ++ response.questions.flatMap Question.encode ++ (answers ++ response.rest) := by
      rw [hpayload, hquestions]
      simp
    have hrun := skipQuestions_encode hfits response.questions hcut hfuel
    rw [htwelve, hquestions] at hrun
    exact hrun
  have hcut : response.encode = (header ++ questions) ++ response.answers.flatMap Record.encode ++ response.rest := by
    rw [hpayload, hanswers]
  have hread := readAnswers_encode hfits response.answers hcut [] hfuel
  rw [ParseDnsAnswers, if_neg hlong, hcount, ok_bind, hcount', ok_bind, hskip, ok_bind]
  exact hread

end Reads

/-! ## The texts -/

theorem words_lt (data : List UInt8) : ∀ word ∈ words data, word < 65536 := by
  match data with
  | [] | [_] => exact nofun
  | high :: low :: data =>
    have hhigh := UInt8.toNat_lt high
    have hlow := UInt8.toNat_lt low
    rw [words, forall_mem_cons]
    exact ⟨by omega, words_lt data⟩

theorem length_words (data : List UInt8) : (words data).length = data.length / 2 := by
  match data with
  | [] => rfl
  | [_] => simp [words]
  | high :: low :: data =>
    rw [words, length_cons, length_words data, length_cons, length_cons]
    omega

theorem take_words (n : Nat) (data : List UInt8) : (words data).take n = words (data.take (2 * n)) := by
  match n, data with
  | 0, data => rw [take_zero, Nat.mul_zero, take_zero]; rfl
  | n + 1, [] | n + 1, [_] => simp [words, Nat.mul_add]
  | n + 1, high :: low :: data =>
    rw [words, take_succ_cons, take_words n data, Nat.mul_add, take_succ_cons, take_succ_cons, words]

theorem drop_words (n : Nat) (data : List UInt8) : (words data).drop n = words (data.drop (2 * n)) := by
  match n, data with
  | 0, data => rfl
  | n + 1, [] | n + 1, [_] => simp [words, Nat.mul_add]
  | n + 1, high :: low :: data =>
    rw [words, drop_succ_cons, drop_words n data, Nat.mul_add, drop_succ_cons, drop_succ_cons]

theorem foldl_words (value : Nat) (data : List UInt8) (h : data.length % 2 = 0) :
    (words data).foldl (fun word group => word <<< 16 ||| group) value = data.foldl (fun value byte => value * 256 + byte.toNat) value := by
  match data, h with
  | [], _ => rfl
  | high :: low :: data, h =>
    have hhigh := UInt8.toNat_lt high
    have hlow := UInt8.toNat_lt low
    have heven : data.length % 2 = 0 := by
      rw [length_cons, length_cons] at h
      omega
    rw [words, foldl_cons, foldl_cons, foldl_cons, shiftLeft_or value (show high.toNat * 256 + low.toNat < 2 ^ 16 by omega),
      show value * 2 ^ 16 + (high.toNat * 256 + low.toNat) = (value * 256 + high.toNat) * 256 + low.toNat by omega]
    exact foldl_words _ data heven

/-- The words of some data, of whole words, are the number the data are. -/
theorem wordOf_words {data : List UInt8} (h : data.length % 2 = 0) : wordOf (words data) = valueOf data := foldl_words 0 data h

/-- The text of the address of a record says the address that is in its data. -/
theorem address_text {record : Record} {address : Address} (h : record.address = some address) :
    ipListParseAddress address.text = some (if record.kind = 1 then ⟨false, 0, valueOf record.data⟩
    else ⟨true, valueOf (record.data.take 8), valueOf (record.data.drop 8)⟩) := by
  unfold Record.address at h
  split at h
  · next hv4 =>
    rw [if_pos hv4]
    split at h
    · next a b c d hdata =>
      rw [← Option.some.inj h, hdata, Address.text, address_dotted (UInt8.toNat_lt a) (UInt8.toNat_lt b) (UInt8.toNat_lt c) (UInt8.toNat_lt d)]
      simp [valueOf]
    · cases h
  · next hnot =>
    rw [if_neg hnot]
    split at h
    · next hv6 =>
      have hgroups : (words record.data).length = 8 := by rw [length_words, hv6.2]
      rw [← Option.some.inj h, Address.text, address_written (.all _) hgroups (words_lt record.data), take_words,
        drop_words, wordOf_words (by rw [length_take, hv6.2]; rfl),
        wordOf_words (by rw [length_drop, hv6.2])]
    · cases h

theorem octets_text : ipListParseAddress "1.2.3.4".toList = some ⟨false, 0, 0x01020304⟩ :=
  @address_text ⟨⟨[], .zero⟩, 1, 1, 0, 0, [1, 2, 3, 4], by decide⟩ (.v4 1 2 3 4) rfl

/-! ## The reader -/

/-- No packet that fits makes the reader read outside or go on for ever, and an encoded response gives the
addresses of its answers, in order. -/
theorem answers_exact : (∀ (payload : List UInt8) (id : Nat), ∃ error, IsDnsResponseFor payload id = .ok error) ∧
    (∀ payload : List UInt8, Fits payload → ∃ addresses, ∀ fuel : Nat, payload.length < fuel → ParseDnsAnswers payload fuel = .ok addresses) ∧
    ∀ response : Response, Fits response.encode → ∀ fuel : Nat, response.encode.length < fuel →
    ParseDnsAnswers response.encode fuel = .ok (response.addresses.map Address.text) :=
  ⟨isResponse_ends, fun _ hfits => parse_ends hfits, fun response hfits _ hfuel => parse_encode response hfits hfuel⟩

/-- A response to a query for `a.b` with an A record whose name is a pointer. -/
def someResponse : Response where
  id := 7
  flags := 0x8180
  questions := [⟨⟨[⟨[97], by decide, by decide⟩, ⟨[98], by decide, by decide⟩], .zero⟩, 1, 1⟩]
  answers := [⟨⟨[], .pointer 0xc0 12 (by decide)⟩, 1, 1, 0, 60, [1, 2, 3, 4], by decide⟩]
  authorities := 0
  additional := 0
  rest := []
  questions_lt := by decide
  answers_lt := by decide

theorem someResponse_read : Fits someResponse.encode ∧ ParseDnsAnswers someResponse.encode 1000 = .ok ["1.2.3.4".toList] := by
  have hfits : Fits someResponse.encode := by
    unfold Fits
    decide
  have hlength : someResponse.encode.length < 1000 := by decide
  have htext : someResponse.addresses.map Address.text = ["1.2.3.4".toList] := by decide
  exact ⟨hfits, htext ▸ answers_exact.2.2 someResponse hfits 1000 hlength⟩

/-- A question whose name has labels of 191 bytes, so many that the offset leaves the `int`. -/
def farPacket (count : Nat) : List UInt8 := [0, 0, 0x80, 0, 0, 1, 0, 0, 0, 0, 0, 0] ++ List.replicate count 0xbf

theorem farPacket_length (count : Nat) : (farPacket count).length = 12 + count := by
  rw [farPacket, length_append, length_replicate]
  rfl

theorem farPacket_byte (hpos : 12 ≤ index) (hlt : index < 12 + count) : byteAt (farPacket count) index = .ok 0xbf := by
  have hread : (farPacket count)[index.toNat]? = some 0xbf := by
    rw [farPacket, getElem?_append_right (by simp only [length_cons, length_nil]; omega),
      getElem?_replicate, if_pos (by simp only [length_cons, length_nil]; omega)]
  exact byteAt_get (by omega) hread

/-- From label to label the offset comes to one that is negative. -/
theorem farPacket_walk (h : 2 ^ 31 ≤ count) (steps : Nat) (hsteps : steps ≤ 11184810) :
    skipName (farPacket count) (steps + 2) (2147483532 - 192 * steps) = .error .outside := by
  have hlength := farPacket_length count
  induction steps with
  | zero =>
    rw [skipName, if_pos (by omega), farPacket_byte (by omega) (by omega), ok_bind, if_neg (by decide),
      if_neg (by decide), show int32 (2147483532 - 192 * ((0 : Nat) : Int) + ((0xbf : Nat) + 1)) = .negSucc 2147483571
        by decide, skipName, if_pos (by omega)]
    rfl
  | succ steps ih =>
    have hnext : int32 (2147483532 - 192 * ((steps + 1 : Nat) : Int) + ((0xbf : Nat) + 1)) = 2147483532 - 192 * steps := by
      rw [int32_small (by omega) (by omega)]
      omega
    rw [skipName, if_pos (by omega), farPacket_byte (by omega) (by omega), ok_bind, if_neg (by decide), if_neg (by decide), hnext]
    exact ih (by omega)

/-- A packet of that size is not read inside. -/
theorem far_outside : ∃ fuel, ParseDnsAnswers (farPacket (2 ^ 31)) fuel = .error .outside := by
  have hlength := farPacket_length (2 ^ 31)
  have hhead : ∀ (index : Nat) (byte : UInt8), (farPacket (2 ^ 31))[index]? = some byte → byteAt (farPacket (2 ^ 31)) index = .ok byte.toNat :=
    fun index byte hget => byteAt_get (Int.natCast_nonneg index) hget
  have hfour : byteAt (farPacket (2 ^ 31)) 4 = .ok 0 := hhead 4 0 rfl
  have hfive : byteAt (farPacket (2 ^ 31)) 5 = .ok 1 := hhead 5 1 rfl
  have hsix : byteAt (farPacket (2 ^ 31)) 6 = .ok 0 := hhead 6 0 rfl
  have hseven : byteAt (farPacket (2 ^ 31)) 7 = .ok 0 := hhead 7 0 rfl
  have hquestions : wordAt (farPacket (2 ^ 31)) 4 = .ok 1 := by
    rw [wordAt, hfour, ok_bind, show int32 (4 + 1) = 5 by decide, hfive]
    rfl
  have hanswers : wordAt (farPacket (2 ^ 31)) 6 = .ok 0 := by
    rw [wordAt, hsix, ok_bind, show int32 (6 + 1) = 7 by decide, hseven]
    rfl
  refine ⟨11184810 + 2, ?_⟩
  have hwalk := farPacket_walk (Nat.le_refl (2 ^ 31)) 11184810 (Nat.le_refl _)
  rw [ParseDnsAnswers, if_neg (by omega), hquestions, ok_bind, hanswers, ok_bind, skipQuestions]
  rw [show (2147483532 : Int) - 192 * ((11184810 : Nat) : Int) = 12 by decide] at hwalk
  rw [hwalk]
  rfl

end Throne.Global.DnsProbe
