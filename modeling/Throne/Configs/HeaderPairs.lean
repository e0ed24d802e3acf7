import Throne.Lib.Runs
import Throne.Lib.Texts

/-!
# Headers as text

`getHeadersString` and `parseHeaderPairs` of `src/src/configs/common/utils.cpp`: a list of names and values in turn,
and the text an editor shows for it. The writer puts every value between quotation marks and escapes nothing, and no
quotation mark gets through the reader, so exactly the values with one are lost.
-/

namespace Throne.Configs.Headers

open Lib.Texts Lib.Runs List

/-! ## The two directions -/

/-- The loop of `getHeadersString`. -/
def formatted : List Text → List Text
  | name :: value :: headers => (name ++ '=' :: '"' :: value ++ ['"']) :: formatted headers
  | _ => []

/-- `getHeadersString`. -/
def getHeadersString (headers : List Text) : Text :=
  if headers.length % 2 ≠ 0 then [] else List.intercalate [' '] (formatted headers)

/-- What the loop of `parseHeaderPairs` has so far. -/
structure HeaderScan where
  inQuote : Bool
  curr : Text
  list : List Text

/-- An item ends. -/
def HeaderScan.take (s : HeaderScan) : HeaderScan :=
  if s.curr.isEmpty then s else { s with list := s.list ++ [s.curr], curr := [] }

/-- One turn of the loop. -/
def HeaderScan.read (s : HeaderScan) (ch : Char) : HeaderScan :=
  if s.inQuote then
    if ch = '"' then { inQuote := false, list := s.list ++ [s.curr], curr := [] }
    else { s with curr := s.curr ++ [ch] }
  else if ch = '"' then { s with inQuote := true }
  else if ch = ' ' then s.take
  else if ch = '=' then s.take
  else { s with curr := s.curr ++ [ch] }

/-- `parseHeaderPairs`. -/
def parseHeaderPairs (rawHeader : Text) : List Text :=
  let list := (run HeaderScan.read ⟨false, [], []⟩ rawHeader).take.list
  if list.length % 2 ≠ 0 then [] else list

/-! ## No quotation mark is read -/

/-- Nothing that was read holds a quotation mark. -/
def HeaderScan.Unquoted (s : HeaderScan) : Prop := '"' ∉ s.curr ∧ ∀ item ∈ s.list, '"' ∉ item

variable {s : HeaderScan}

theorem HeaderScan.Unquoted.push (h : s.Unquoted) : ∀ item ∈ s.list ++ [s.curr], '"' ∉ item := by
  intro item hitem
  rcases mem_append.1 hitem with hold | hnew
  · exact h.2 item hold
  · rw [mem_singleton.1 hnew]
    exact h.1

theorem unquoted_take (h : s.Unquoted) : s.take.Unquoted := by
  rw [HeaderScan.take]
  split
  · exact h
  · exact ⟨not_mem_nil, h.push⟩

theorem unquoted_append (h : s.Unquoted) {ch : Char} (hch : ch ≠ '"') : HeaderScan.Unquoted { s with curr := s.curr ++ [ch] } := by
  refine ⟨fun hmem => ?_, h.2⟩
  rcases mem_append.1 hmem with hold | hnew
  · exact h.1 hold
  · exact hch (mem_singleton.1 hnew).symm

/-- A quotation mark opens or closes an item and is part of none. -/
theorem unquoted_read (h : s.Unquoted) (ch : Char) : (s.read ch).Unquoted := by
  rw [HeaderScan.read]
  split
  · split
    · exact ⟨not_mem_nil, h.push⟩
    · next hch => exact unquoted_append h hch
  · split
    · exact h
    · next hch =>
      split
      · exact unquoted_take h
      · split
        · exact unquoted_take h
        · exact unquoted_append h hch

theorem unquoted_parse (rawHeader : Text) : ∀ item ∈ parseHeaderPairs rawHeader, '"' ∉ item := by
  have hstep : ∀ (s : HeaderScan) (ch : Char), s.Unquoted → (s.read ch).Unquoted :=
    fun _ ch h => unquoted_read h ch
  have hstart : HeaderScan.Unquoted ⟨false, [], []⟩ := ⟨not_mem_nil, nofun⟩
  have hrun := inv_run_all hstep rawHeader _ hstart
  rw [parseHeaderPairs]
  split
  · exact nofun
  · exact (unquoted_take hrun).2

/-! ## Reading what was written -/

/-- A character of a token. -/
def tokenChar (c : Char) : Bool := ('0' ≤ c && c ≤ '9') || ('a' ≤ c && c ≤ 'z') || ('A' ≤ c && c ≤ 'Z') || "!#$%&'*+-.^_`|~".toList.contains c

/-- A token as HTTP defines it for the name of a header. -/
def IsToken (name : Text) : Prop := name ≠ [] ∧ ∀ c ∈ name, tokenChar c = true

/-- Names and values in turn. -/
def flatten (pairs : List (Text × Text)) : List Text := pairs.flatMap fun pair => [pair.1, pair.2]

theorem read_token {c : Char} (h : tokenChar c = true) (curr : Text) (list : List Text) :
    HeaderScan.read ⟨false, curr, list⟩ c = ⟨false, curr ++ [c], list⟩ := by
  have hne : ∀ d, tokenChar d = false → c ≠ d := by
    rintro d hd rfl
    exact nomatch hd.symm.trans h
  rw [HeaderScan.read, if_neg Bool.false_ne_true, if_neg (hne '"' (by decide)), if_neg (hne ' ' (by decide)), if_neg (hne '=' (by decide))]

theorem read_name {name : Text} (h : ∀ c ∈ name, tokenChar c = true) (curr : Text) (list : List Text) :
    run HeaderScan.read ⟨false, curr, list⟩ name = ⟨false, curr ++ name, list⟩ := by
  induction name generalizing curr with
  | nil => rw [run_nil, append_nil]
  | cons c name ih =>
    rw [forall_mem_cons] at h
    rw [run_cons, read_token h.1, ih h.2, append_assoc]
    rfl

theorem read_value {value : Text} (h : '"' ∉ value) (curr : Text) (list : List Text) :
    run HeaderScan.read ⟨true, curr, list⟩ value = ⟨true, curr ++ value, list⟩ := by
  induction value generalizing curr with
  | nil => rw [run_nil, append_nil]
  | cons c value ih =>
    rw [mem_cons, not_or] at h
    have hread : HeaderScan.read ⟨true, curr, list⟩ c = ⟨true, curr ++ [c], list⟩ := by
      rw [HeaderScan.read, if_pos rfl, if_neg (Ne.symm h.1)]
    rw [run_cons, hread, ih h.2, append_assoc]
    rfl

/-- Between two items, one pair gives its two items. -/
theorem read_pair {name value : Text} (hname : IsToken name) (hvalue : '"' ∉ value) (list : List Text) :
    run HeaderScan.read ⟨false, [], list⟩ (name ++ '=' :: '"' :: value ++ ['"']) = ⟨false, [], list ++ [name, value]⟩ := by
  have hequals : HeaderScan.read ⟨false, name, list⟩ '=' = ⟨false, [], list ++ [name]⟩ := by
    have hset : name.isEmpty = false := by
      rw [isEmpty_eq_false_iff]
      exact hname.1
    show HeaderScan.take ⟨false, name, list⟩ = _
    rw [HeaderScan.take, if_neg (by rw [hset]; exact Bool.false_ne_true)]
  have hopen : HeaderScan.read ⟨false, [], list ++ [name]⟩ '"' = ⟨true, [], list ++ [name]⟩ := rfl
  have hclose : HeaderScan.read ⟨true, value, list ++ [name]⟩ '"' = ⟨false, [], list ++ [name] ++ [value]⟩ := rfl
  rw [append_assoc, run_append, read_name hname.2, nil_append, cons_append, cons_append, run_cons,
    hequals, run_cons, hopen, run_append, read_value hvalue, nil_append, run_cons, hclose, run_nil,
    append_assoc]
  rfl

theorem read_formatted {pairs : List (Text × Text)} (hnames : ∀ pair ∈ pairs, IsToken pair.1)
    (hvalues : ∀ pair ∈ pairs, '"' ∉ pair.2) (list : List Text) :
    run HeaderScan.read ⟨false, [], list⟩ (List.intercalate [' '] (formatted (flatten pairs))) = ⟨false, [], list ++ flatten pairs⟩ := by
  induction pairs generalizing list with
  | nil =>
    show (⟨false, [], list⟩ : HeaderScan) = _
    rw [flatten, flatMap_nil, append_nil]
  | cons pair pairs ih =>
    rw [forall_mem_cons] at hnames hvalues
    have hpair := read_pair hnames.1 hvalues.1 list
    have hflat : list ++ flatten (pair :: pairs) = list ++ [pair.1, pair.2] ++ flatten pairs := by
      rw [flatten, flatMap_cons, append_assoc]
      rfl
    rw [hflat]
    cases pairs with
    | nil =>
      show run HeaderScan.read _ (pair.1 ++ '=' :: '"' :: pair.2 ++ ['"'] ++ []) = _
      rw [append_nil, hpair, flatten, flatMap_nil, append_nil]
    | cons other pairs =>
      have hspace : HeaderScan.read ⟨false, [], list ++ [pair.1, pair.2]⟩ ' ' = ⟨false, [], list ++ [pair.1, pair.2]⟩ := rfl
      show run HeaderScan.read _ ((pair.1 ++ '=' :: '"' :: pair.2 ++ ['"']) ++
        ' ' :: List.intercalate [' '] (formatted (flatten (other :: pairs)))) = _
      rw [run_append, hpair, run_cons, hspace]
      exact ih hnames.2 hvalues.2 _

theorem length_flatten (pairs : List (Text × Text)) : (flatten pairs).length % 2 = 0 := by
  induction pairs with
  | nil => rfl
  | cons pair pairs ih =>
    rw [flatten, flatMap_cons, length_append]
    rw [flatten] at ih
    show (2 + _) % 2 = 0
    omega

/-- Headers survive their text exactly when no value holds a quotation mark. -/
theorem headers_survive_iff {pairs : List (Text × Text)} (hnames : ∀ pair ∈ pairs, IsToken pair.1) :
    parseHeaderPairs (getHeadersString (flatten pairs)) = flatten pairs ↔ ∀ pair ∈ pairs, '"' ∉ pair.2 := by
  constructor
  · intro hsame pair hpair
    have hitem : pair.2 ∈ flatten pairs := mem_flatMap.2 ⟨pair, hpair, mem_cons_of_mem _ mem_cons_self⟩
    rw [← hsame] at hitem
    exact unquoted_parse _ _ hitem
  · intro hvalues
    have heven := length_flatten pairs
    have hread := read_formatted hnames hvalues []
    rw [nil_append] at hread
    rw [getHeadersString, if_neg (not_not_intro heven), parseHeaderPairs, hread]
    exact if_neg (not_not_intro heven)

theorem headers_survive_agent : parseHeaderPairs (getHeadersString (flatten [("A".toList, "x = y".toList), ("B".toList, [])])) =
    flatten [("A".toList, "x = y".toList), ("B".toList, [])] := by
  have hnames : ∀ pair ∈ [("A".toList, "x = y".toList), ("B".toList, [])], IsToken pair.1 := by
    rw [forall_mem_cons, forall_mem_singleton]
    exact ⟨⟨by decide, forall_of_all (by decide)⟩, by decide, forall_of_all (by decide)⟩
  refine (headers_survive_iff hnames).2 ?_
  rw [forall_mem_cons, forall_mem_singleton]
  exact ⟨by decide, by decide⟩

/-- A quotation mark in a value ends it, and what is behind it goes into the next value. -/
theorem headers_lost : ¬∀ pairs : List (Text × Text), (∀ pair ∈ pairs, IsToken pair.1) →
    parseHeaderPairs (getHeadersString (flatten pairs)) = flatten pairs := by
  intro h
  have hnames : ∀ pair ∈ [("A".toList, "x\"y".toList)], IsToken pair.1 := by
    rw [forall_mem_singleton]
    exact ⟨by decide, forall_of_all (by decide)⟩
  exact absurd (h _ hnames) (by decide)

end Throne.Configs.Headers
