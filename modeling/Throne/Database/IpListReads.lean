import Throne.Database.IpListsRepo

/-!
# Paged reads of one generation

`ipListsRepoReadGeneration` reads a page, remembers the order of its last row and asks for the rows
after it. `pending` is what a read would return if it ended now with no more changes to the rows: the
rows it has and the rows it would still read. A page moves rows from the second part to the first
(`readPage_spec`), so a read of rows that stay as they are returns the window of the list it asked
for (`readHeld_eq`).
-/

namespace Throne.Database.IpLists

open List

/-! ## Orders are strict -/

theorem Row.clashes_symm {a b : Row} (h : a.clashes b = true) : b.clashes a = true := by
  simp only [Row.clashes, Row.isAt, Bool.and_eq_true, Bool.or_eq_true, beq_iff_eq] at h ⊢
  obtain ⟨⟨h1, h2⟩, h3⟩ := h
  exact ⟨⟨h1.symm, h2.symm⟩, h3.imp Eq.symm Eq.symm⟩

theorem mem_ordered {db : Db} {id generation : Nat} {r : Row} : r ∈ db.ordered id generation ↔ r ∈ db.rowsAt id generation := by
  rw [Db.ordered, mem_insertionSort]

theorem isAt_of_mem {db : Db} {id generation : Nat} {r : Row} (h : r ∈ db.rowsAt id generation) : r.list = id ∧ r.generation = generation := by
  have hat := (mem_filter.1 h).2
  simpa only [Row.isAt, Bool.and_eq_true, beq_iff_eq] using hat

variable (db : Db)

/-- The rows of a generation do not clash, in whatever order. -/
theorem ordered_keyed (id generation : Nat) : (db.ordered id generation).Pairwise fun a b => a.clashes b = false := by
  have hperm := perm_insertionSort (fun a b : Row => a.order ≤ b.order) (db.rowsAt id generation)
  refine (hperm.pairwise_iff ?_).2 (db.keyed.filter _)
  intro a b h
  by_contra hba
  rw [Row.clashes_symm (by simpa using hba)] at h
  cases h

/-- `ORDER BY entry_order` over the primary key: no two rows share an order. -/
theorem ordered_strict (id generation : Nat) : (db.ordered id generation).Pairwise fun a b => a.order < b.order := by
  have hsorted : (db.ordered id generation).Pairwise fun a b => a.order ≤ b.order := by
    have : Std.Total (fun a b : Row => a.order ≤ b.order) := ⟨fun a b => Nat.le_total _ _⟩
    have : IsTrans Row (fun a b => a.order ≤ b.order) := ⟨fun _ _ _ => Nat.le_trans⟩
    exact pairwise_insertionSort _ _
  have hkeyed := ordered_keyed db id generation
  refine ((hsorted.and hkeyed).imp_of_mem ?_)
  intro a b ha hb h
  obtain ⟨hla, hga⟩ := isAt_of_mem (mem_ordered.1 ha)
  obtain ⟨hlb, hgb⟩ := isAt_of_mem (mem_ordered.1 hb)
  -- equal orders would clash
  have hne : a.order ≠ b.order := by
    intro heq
    have hclash : a.clashes b = true := by
      simp [Row.clashes, Row.isAt, hla, hlb, hga, hgb, heq]
    rw [h.2] at hclash
    cases hclash
  omega

/-! ## Pages -/

/-- What the read asks for, of rows `l`. -/
def limited (remaining : Option Nat) (l : List Entry) : List Entry :=
  match remaining with
  | none => l
  | some n => l.take n

@[simp] theorem limited_nil (remaining : Option Nat) : limited remaining [] = [] := by
  cases remaining with
  | none => rfl
  | some n => exact take_nil

theorem mem_of_mem_limited {remaining : Option Nat} {l : List Entry} {e : Entry} (h : e ∈ limited remaining l) : e ∈ l := by
  cases remaining with
  | none => exact h
  | some n => exact mem_of_mem_take h

variable (id generation offset : Nat)

/-- What a read returns if the rows stay as they are. -/
def pending (c : Cursor) : List Entry := c.out ++ limited c.remaining ((unread db id generation offset c).map (·.entry))

/-- The part of a generation a read asks for. -/
def window (limit : Option Nat) : List Entry := limited limit (((db.ordered id generation).map (·.entry)).drop offset)

theorem pending_start (limit : Option Nat) : pending db id generation offset ⟨limit, none, []⟩ = window db id generation offset limit := by
  simp [pending, window, unread, map_drop]

/-- The rows after an order are an end of the ordered rows. -/
theorem filter_after_eq_drop (l : List Row) (hl : l.Pairwise fun a b => a.order < b.order)
    (after : Nat) : ∃ n, (l.filter fun r => decide (after < r.order)) = l.drop n := by
  induction l with
  | nil => exact ⟨0, rfl⟩
  | cons r l ih =>
    obtain ⟨hr, hl⟩ := pairwise_cons.1 hl
    by_cases hafter : after < r.order
    · refine ⟨0, ?_⟩
      rw [drop_zero, filter_eq_self]
      intro x hx
      rcases mem_cons.1 hx with rfl | hx
      · simpa using hafter
      · have hlt := hr x hx
        simp only [decide_eq_true_eq]
        omega
    · obtain ⟨n, hn⟩ := ih hl
      refine ⟨n + 1, ?_⟩
      rw [filter_cons_of_neg (by simpa using hafter), hn, drop_succ_cons]

theorem unread_eq_drop (c : Cursor) : ∃ n, unread db id generation offset c = (db.ordered id generation).drop n := by
  rw [unread]
  split
  · exact ⟨offset, rfl⟩
  · exact filter_after_eq_drop _ (ordered_strict db id generation) _

/-- The rows after the last row of a page are the rest. -/
theorem filter_after_page {l : List Row} (hl : l.Pairwise fun a b => a.order < b.order) (n p : Nat)
    {last : Row} (hlast : ((l.drop n).take p).getLast? = some last) :
    (l.filter fun r => decide (last.order < r.order)) = (l.drop n).drop p := by
  obtain ⟨init, hinit⟩ := getLast?_eq_some_iff.1 hlast
  -- the rows up to the end of the page, and the rest
  have hsplit : l = (l.take n ++ (init ++ [last])) ++ (l.drop n).drop p := by
    rw [← hinit, append_assoc, take_append_drop, take_append_drop]
  have hpair := hl
  rw [hsplit] at hpair
  obtain ⟨hread, -, hcross⟩ := pairwise_append.1 hpair
  obtain ⟨-, hpage, hbefore⟩ := pairwise_append.1 hread
  have hout : ((l.take n ++ (init ++ [last])).filter fun r => decide (last.order < r.order)) = [] := by
    apply filter_eq_nil_iff.2
    intro r hr
    simp only [decide_eq_true_eq, Nat.not_lt]
    rcases mem_append.1 hr with hr | hr
    · exact Nat.le_of_lt (hbefore r hr last (by simp))
    · rcases mem_append.1 hr with hr | hr
      · exact Nat.le_of_lt ((pairwise_append.1 hpage).2.2 r hr last (by simp))
      · rw [mem_singleton.1 hr]
  have hin : (((l.drop n).drop p).filter fun r => decide (last.order < r.order)) = (l.drop n).drop p := by
    apply filter_eq_self.2
    intro r hr
    simpa using hcross last (by simp) r hr
  conv_lhs => rw [hsplit]
  rw [filter_append, hout, hin, nil_append]

/-- A page takes its rows from the front of the unread ones. -/
theorem unread_advance (c : Cursor) (hsize : 0 < pageSize c) : unread db id generation offset
    (c.advance ((unread db id generation offset c).take (pageSize c))) = (unread db id generation offset c).drop (pageSize c) := by
  rcases hlast : ((unread db id generation offset c).take (pageSize c)).getLast? with _ | last
  · -- an empty page: there was nothing to read
    have hnil : unread db id generation offset c = [] := by
      rcases take_eq_nil_iff.1 (getLast?_eq_none_iff.1 hlast) with h | h
      · omega
      · exact h
    rw [hnil, take_nil, drop_nil]
    simpa [unread, Cursor.advance] using hnil
  · obtain ⟨n, hn⟩ := unread_eq_drop db id generation offset c
    rw [hn] at hlast ⊢
    rw [← filter_after_page (ordered_strict db id generation) n (pageSize c) hlast]
    simp [unread, Cursor.advance, hlast]

theorem readPage_eq (c : Cursor) : readPage db id generation offset c = (c.advance ((unread db id generation offset c).take (pageSize c)),
    decide (((unread db id generation offset c).take (pageSize c)).length < pageSize c) ||
    (c.advance ((unread db id generation offset c).take (pageSize c))).remaining == some 0) :=
  rfl

/-- The limit split at a page: what the page takes and what is left of it. -/
theorem limited_split (c : Cursor) (l : List Entry) : limited c.remaining l = l.take (pageSize c) ++
    limited (c.remaining.map (· - (l.take (pageSize c)).length)) (l.drop (pageSize c)) := by
  rw [pageSize]
  rcases c.remaining with _ | n
  · exact (take_append_drop _ _).symm
  · show l.take n = l.take (min n _) ++ (l.drop (min n _)).take (n - _)
    generalize Db.kIpListsRepoChunkRows = chunk
    rw [length_take]
    by_cases hlen : min n chunk ≤ l.length
    · rw [Nat.min_eq_left hlen, ← take_add]
      congr 1
      omega
    · -- the page ends the list
      rw [drop_eq_nil_of_le (by omega), take_nil, append_nil, take_of_length_le (by omega), take_of_length_le (by omega)]

/-- One page leaves what the read will return as it was, and a complete read returns it. -/
theorem readPage_spec (c next : Cursor) (last : Bool) (hsize : 0 < pageSize c) (h : readPage db id generation offset c = (next, last)) :
    pending db id generation offset next = pending db id generation offset c ∧
    (last = true → next.out = pending db id generation offset c) ∧ (last = false → 0 < pageSize next ∧
    (unread db id generation offset next).length < (unread db id generation offset c).length) := by
  rw [readPage_eq, Prod.mk.injEq] at h
  obtain ⟨rfl, hlast⟩ := h
  have hunread := unread_advance db id generation offset c hsize
  generalize hl : unread db id generation offset c = l at *
  -- the page in terms of the entries
  have hsplit := limited_split c (l.map (·.entry))
  rw [← map_take, ← map_drop, length_map] at hsplit
  refine ⟨?_, ?_, ?_⟩
  · rw [pending, pending, hunread, hl, hsplit, ← append_assoc]
    rfl
  · intro hdone
    rw [hdone, Bool.or_eq_true, decide_eq_true_eq, beq_iff_eq] at hlast
    rw [pending, hl, hsplit, ← append_assoc]
    have hrest : limited (c.remaining.map (· - (l.take (pageSize c)).length)) ((l.drop (pageSize c)).map (·.entry)) = [] := by
      rcases hlast with hshort | hzero
      · -- a short page is the last one
        rw [length_take] at hshort
        rw [drop_eq_nil_of_le (by omega), map_nil, limited_nil]
      · rw [show c.remaining.map (· - (l.take (pageSize c)).length) = some 0 from hzero]
        rfl
    rw [hrest, append_nil]
    rfl
  · intro hmore
    rw [hmore, Bool.or_eq_false_iff, decide_eq_false_iff_not, length_take] at hlast
    refine ⟨?_, ?_⟩
    · have hrem : c.remaining.map (· - (l.take (pageSize c)).length) ≠ some 0 := by
        exact beq_eq_false_iff_ne.1 hlast.2
      show 0 < pageSize (c.advance (l.take (pageSize c)))
      have hchunk := Db.kIpListsRepoChunkRows_pos
      rw [pageSize]
      split
      · exact hchunk
      · next n hn =>
        have hn0 : n ≠ 0 := by
          rintro rfl
          exact hrem hn
        omega
    · rw [hunread, length_drop]
      omega

/-- A read under one hold of the lock returns the window it asked for. -/
theorem readHeld_eq (fuel : Nat) (c : Cursor) (hsize : 0 < pageSize c) (hfuel : (unread db id generation offset c).length < fuel) :
    readHeld db id generation offset fuel c = pending db id generation offset c := by
  induction fuel generalizing c with
  | zero => omega
  | succ fuel ih =>
    rcases hp : readPage db id generation offset c with ⟨next, last⟩
    obtain ⟨hpending, hdone, hmore⟩ := readPage_spec db id generation offset c next last hsize hp
    cases last with
    | true =>
      simp only [readHeld, hp]
      exact hdone rfl
    | false =>
      obtain ⟨hsize', hlen⟩ := hmore rfl
      simp only [readHeld, hp]
      rw [ih next hsize' (by omega), hpending]

end Throne.Database.IpLists
