import Throne.Engine.Services.BackupIndex

/-!
# Runs of uploads and deletions

`index_kept` is about every run. Operations that run one after another show where the index does not have
an archive that is there: an update cuts the list off at `kWebDavIndexMaxEntries`, and nobody fetches what
was cut off when archives go again.
-/

namespace Throne.Engine.WebDavBackup

open Lib.Texts Lib.Json Lib.Runs List

/-! ## New names -/

variable {m n : Nat}

section Names

theorem digitChar_ne (h : n < 16) : Nat.digitChar n ≠ '/' ∧ Nat.digitChar n ≠ '\\' := by
  revert n
  decide

theorem digitChar_injective (hm : m < 16) (hn : n < 16) (h : Nat.digitChar m = Nat.digitChar n) : m = n := by
  have hall : ∀ m < 16, ∀ n < 16, Nat.digitChar m = Nat.digitChar n → m = n := by decide
  exact hall m hm n hn h

theorem hex4_injective (hm : m < 65536) (hn : n < 65536) (h : hex4 m = hex4 n) : m = n := by
  rw [hex4, hex4] at h
  simp only [List.cons.injEq, and_true] at h
  obtain ⟨h₁, h₂, h₃, h₄⟩ := h
  have := digitChar_injective (by omega) (by omega) h₁
  have := digitChar_injective (by omega) (by omega) h₂
  have := digitChar_injective (by omega) (by omega) h₃
  have := digitChar_injective (by omega) (by omega) h₄
  omega

theorem newFileName_injective {version stamp : Text} (hm : m < 65536) (hn : n < 65536)
    (h : WebDavNewFileName version stamp m = WebDavNewFileName version stamp n) : m = n := by
  unfold WebDavNewFileName at h
  rw [append_left_inj, append_right_inj] at h
  exact hex4_injective hm hn h

/-- No slash. -/
def Plain (text : Text) : Prop := ∀ c ∈ text, c ≠ '/' ∧ c ≠ '\\'

instance (text : Text) : Decidable (Plain text) := List.decidableBAll _ text

theorem Plain.append {a b : Text} (ha : Plain a) (hb : Plain b) : Plain (a ++ b) := by
  intro c hc
  rcases mem_append.1 hc with hc | hc
  · exact ha c hc
  · exact hb c hc

/-- A new name is safe whatever the version. -/
theorem safe_newFileName (version : Text) {stamp : Text} (hstamp : Plain stamp) (random : Nat) :
    WebDavSafeFileName (WebDavNewFileName version stamp random) = true := by
  have hversion : Plain (version.map fun c =>
    if c.isAlphanum || c == '.' || c == '_' || c == '-' then c else '-') := by
    intro c hc
    obtain ⟨c', -, rfl⟩ := mem_map.1 hc
    split
    · next hkept =>
      constructor
      all_goals
        rintro rfl
        cases hkept
    · decide
  have hhex : Plain (hex4 random) := by
    intro c hc
    rw [hex4] at hc
    simp only [mem_cons, not_mem_nil, or_false] at hc
    rcases hc with rfl | rfl | rfl | rfl <;> exact digitChar_ne (Nat.mod_lt _ (by decide))
  have hplain : Plain (WebDavNewFileName version stamp random) := by
    have hends : Plain "throne_backup_".toList ∧ Plain "_".toList ∧ Plain ".thrbackup".toList := by
      decide
    obtain ⟨hfirst, hline, hlast⟩ := hends
    exact (((((hfirst.append hversion).append hline).append hstamp).append hline).append hhex).append hlast
  obtain ⟨rest, hrest⟩ : ∃ rest, WebDavNewFileName version stamp random = 't' :: rest := by
    unfold WebDavNewFileName
    simp only [append_assoc]
    exact ⟨_, rfl⟩
  have hend : endsWithNoCase ".thrbackup".toList (WebDavNewFileName version stamp random) = true := by
    unfold WebDavNewFileName
    rw [endsWithNoCase, map_append, isSuffixOf_iff_suffix]
    exact suffix_append _ _
  have hnone : ∀ c, c = '/' ∨ c = '\\' → (WebDavNewFileName version stamp random).contains c = false := by
    intro c hc
    rw [contains_eq_mem, decide_eq_false_iff_not]
    intro hmem
    rcases hc with rfl | rfl
    · exact (hplain _ hmem).1 rfl
    · exact (hplain _ hmem).2 rfl
  have hdot : ∀ dots : Text, dots.head? = some '.' → (WebDavNewFileName version stamp random != dots) = true := by
    rintro dots hhead
    rw [bne_iff_ne, hrest]
    rintro rfl
    exact absurd (Option.some.inj hhead) (by decide)
  rw [WebDavSafeFileName, hnone '/' (.inl rfl), hnone '\\' (.inr rfl), hdot _ rfl, hdot _ rfl, hend, hrest]
  rfl

end Names

/-! ## One operation after another -/

section Sequence

variable {d : Dates} {w : World}

theorem setOp_setOp (w : World) (i : Nat) (op op' : Op) : (w.setOp i op).setOp i op' = w.setOp i op' := by
  rw [World.setOp, World.setOp, World.setOp, Function.update_idem]

@[simp] theorem setOp_ops (w : World) (i : Nat) (op : Op) : (w.setOp i op).ops i = op := Function.update_self _ _ _

/-- What was just fetched may be replaced. -/
theorem accepts_fetched (h : Ok d w) : w.accepts 1 w.fetched = true := by
  cases hindex : w.index with
  | none =>
    rw [World.accepts, World.fetched, hindex]
    rfl
  | some current =>
    obtain ⟨root, etag⟩ := current
    obtain ⟨-, hstrong, -⟩ := h.index root etag hindex
    have hfetched : w.fetched.etag = etag := by
      rw [World.fetched, hindex]
      simp only [hstrong.1, hstrong.2, Bool.not_false, Bool.and_self, if_true]
    rw [World.accepts, hfetched, hstrong.1, hindex]
    simp [kWebDavIndexRounds]

/-- An archive is stored. -/
def World.stored (d : Dates) (w : World) (i : Nat) (b : Backup) (modified : Date) : World :=
  { w.setOp i (.fetch b.file (some (b.entry d)) 1) with
    folder := w.folder.filter (fun file => file.name != b.file) ++ [⟨b.file, b.size, modified⟩]
    uploads := b :: w.uploads }

/-- An archive is gone. -/
def World.deleted (w : World) (i : Nat) (file : Text) : World :=
  { w.setOp i (.fetch file none 1) with
    folder := w.folder.filter fun listed => listed.name != file }

/-- The last three requests of an operation. -/
def updateEvents (i : Nat) (modified : Date) (etag : Text) : List Event := List.replicate 3 (.next i modified etag)

/-- The index after an update that nobody disturbs. -/
def World.updated (d : Dates) (w : World) (i : Nat) (file : Text) (added : Option Fields) (etag : Text) : World :=
  let kept := keptEntries d w.fetched.root w.names file added
  let written := kept.take kWebDavIndexMaxEntries
  { w.setOp i .done with
    index := some (withEntries w.fetched.root written, etag)
    tags := (etag, withEntries w.fetched.root written) :: w.tags
    cuts := (kept.drop kWebDavIndexMaxEntries).map (fun object => (object, written)) ++ w.cuts }

variable {i : Nat} {file : Text} {added : Option Fields} {modified : Date} {etag : Text}

theorem step_fetch (hformat : formatOf w.fetched.root = kWebDavIndexFormat) (hat : w.ops i = .fetch file added 1) :
    step d w (.next i modified etag) = w.setOp i (.list file added 1 w.fetched) := by
  rw [step, request, hat]
  simp only [hformat, lt_irrefl, if_false]

theorem step_list (w : World) {index : WebDavIndex} : step d (w.setOp i (.list file added 1 index)) (.next i modified etag) =
    w.setOp i (.put file added 1 index w.names) := by
  rw [step, request, setOp_ops]
  exact setOp_setOp w i _ _

theorem step_put (haccepts : w.accepts 1 w.fetched = true) : step d (w.setOp i (.put file added 1 w.fetched w.names)) (.next i modified etag) =
    w.updated d i file added etag := by
  have hsame : (w.setOp i (.put file added 1 w.fetched w.names)).accepts 1 w.fetched = true := haccepts
  rw [step, request, setOp_ops]
  simp only [hsame, if_true, setOp_setOp]
  rfl

theorem step_uploadPut (w : World) (b : Backup) : step d (w.setOp i (.uploadPut b)) (.next i modified etag) = w.stored d i b modified := by
  rw [step, request, setOp_ops]
  simp only [setOp_setOp]
  rfl

theorem step_deleteRequest (w : World) : step d (w.setOp i (.deleteRequest file)) (.next i modified etag) = w.deleted i file := by
  rw [step, request, setOp_ops]
  simp only [setOp_setOp]
  rfl

theorem run_update (hformat : formatOf w.fetched.root = kWebDavIndexFormat)
    (haccepts : w.accepts 1 w.fetched = true) (hat : w.ops i = .fetch file added 1) :
    run (step d) w (updateEvents i modified etag) = w.updated d i file added etag := by
  rw [updateEvents, List.replicate, List.replicate, List.replicate, run_cons,
    step_fetch hformat hat, run_cons, step_list, run_cons, step_put haccepts]
  rfl

/-- An update that nobody disturbs needs one round. -/
theorem along_update (h : Ok d w) (hat : w.ops i = .fetch file added 1) (hstrong : StrongTag etag)
    (hfresh : ∀ root, (etag, root) ∉ w.tags) : Along (step d) (Meets d) w (updateEvents i modified etag) := by
  rw [updateEvents, List.replicate, List.replicate, List.replicate]
  have hformat := (fetched_fetched h).2
  have hone : ∀ w' : World, w'.tags = w.tags → (∀ file' added', (request d w' i modified etag).ops i ≠ .fetch file' added' kWebDavIndexRounds) →
      Meets d w' (.next i modified etag) := by
    intro w' htags hround
    refine ⟨hstrong, ?_, hround⟩
    intro root _ root' hroot'
    exact absurd (htags ▸ hroot') (hfresh root')
  refine ⟨hone w rfl ?_, ?_⟩
  · intro file' added'
    have hstep : request d w i modified etag = _ := step_fetch hformat hat
    rw [hstep, setOp_ops]
    exact nofun
  · rw [step_fetch hformat hat]
    refine ⟨hone (w.setOp i _) rfl ?_, ?_⟩
    · intro file' added'
      have hstep : request d (w.setOp i (.list file added 1 w.fetched)) i modified etag = _ := step_list (d := d) w
      rw [hstep, setOp_ops]
      exact nofun
    · rw [step_list]
      refine ⟨hone (w.setOp i _) rfl ?_, trivial⟩
      intro file' added'
      have hstep : request d (w.setOp i (.put file added 1 w.fetched w.names)) i modified etag = _ := step_put (accepts_fetched h)
      rw [hstep]
      have hdone : (w.updated d i file added etag).ops i = .done := setOp_ops w i .done
      rw [hdone]
      exact nofun

/-- Nobody disturbs an operation that has begun with a request of its own. -/
theorem along_begun {e : Event} {op : Op} {next : World} (h : Ok d w) (hmeets : Meets d w e) (hborn : step d w e = w.setOp i op)
    (hnext : step d (w.setOp i op) (.next i modified etag) = next) (hself : next.ops i = .fetch file added 1)
    (htags : next.tags = w.tags) (hstrong : StrongTag etag) (hfresh : ∀ root, (etag, root) ∉ w.tags) :
    Along (step d) (Meets d) w (e :: .next i modified etag :: updateEvents i modified etag) ∧
    run (step d) w (e :: .next i modified etag :: updateEvents i modified etag) = next.updated d i file added etag := by
  have hput : Meets d (w.setOp i op) (.next i modified etag) := by
    refine ⟨hstrong, fun root _ root' hroot' => absurd hroot' (hfresh root'), ?_⟩
    intro file' added' hnow
    have hrequest : request d (w.setOp i op) i modified etag = _ := hnext
    rw [hrequest, hself] at hnow
    exact absurd (Op.fetch.inj hnow).2.2 (by decide)
  have hok := ok_step (ok_step h hmeets) (hborn ▸ hput)
  rw [hborn, hnext] at hok
  rw [along_cons, along_cons, run_cons, run_cons, hborn, hnext]
  exact ⟨⟨hmeets, hput, along_update hok hself hstrong (htags ▸ hfresh)⟩, run_update (fetched_fetched hok).2 (accepts_fetched hok) hself⟩

/-- Nobody disturbs an upload. -/
theorem along_upload {b : Backup} (h : Ok d w) (hat : w.ops i = .unborn)
    (hmeets : Meets d w (.Upload i b)) (hstrong : StrongTag etag) (hfresh : ∀ root, (etag, root) ∉ w.tags) :
    Along (step d) (Meets d) w (.Upload i b :: .next i modified etag :: updateEvents i modified etag) ∧
    run (step d) w (.Upload i b :: .next i modified etag :: updateEvents i modified etag) =
    (w.stored d i b modified).updated d i b.file (some (b.entry d)) etag := by
  have hborn : step d w (.Upload i b) = w.setOp i (.uploadPut b) := by
    rw [step, hat]
  exact along_begun h hmeets hborn (step_uploadPut w b) (setOp_ops w i _) rfl hstrong hfresh

/-- Nobody disturbs a deletion. -/
theorem along_delete (h : Ok d w) (hat : w.ops i = .unborn) (hmeets : Meets d w (.Delete i file))
    (hsafe : WebDavSafeFileName file = true) (hstrong : StrongTag etag) (hfresh : ∀ root, (etag, root) ∉ w.tags) :
    Along (step d) (Meets d) w (.Delete i file :: .next i modified etag :: updateEvents i modified etag) ∧
    run (step d) w (.Delete i file :: .next i modified etag :: updateEvents i modified etag) =
    (w.deleted i file).updated d i file none etag := by
  have hborn : step d w (.Delete i file) = w.setOp i (.deleteRequest file) := by
    rw [step, hat]
    simp only [hsafe, if_true]
  exact along_begun h hmeets hborn (step_deleteRequest w) (setOp_ops w i _) rfl hstrong hfresh

end Sequence

/-! ## A folder of more archives than the index takes -/

section Full

/-- Dates as Qt writes the first of them; the others are not used below. -/
def sampleDates : Dates where
  isoText date := if date = 0 then "1970-01-01T00:00:00Z".toList else List.replicate date '1'
  isoDate text := if text = "1970-01-01T00:00:00Z".toList then some 0 else some text.length
  nameStamp _ := none
  isoDate_isoText date := by
    by_cases hzero : date = 0
    · rw [hzero]
      rfl
    · rw [if_neg hzero, if_neg, length_replicate]
      intro hsame
      have hmem : 'Z' ∈ List.replicate date '1' := by
        rw [hsame]
        decide
      exact absurd (mem_replicate.1 hmem).2 (by decide)

def sampleStamp : Text := "19700101_000000".toList

def sampleHash : Text := List.replicate 64 'a'

/-- Archives of one second. -/
def sample (n : Nat) : Backup where
  file := WebDavNewFileName "1.0.0".toList sampleStamp n
  created_at := 0
  size := n
  sha256 := sampleHash
  device_id := []
  device_name := []
  platform := "linux".toList
  app_version := "1.0.0".toList
  parts := []
  safe := safe_newFileName _ (by decide) n
  hashed := by decide

def sampleTag (n : Nat) : Text := List.replicate (n + 1) 't'

theorem sampleTag_strong (n : Nat) : StrongTag (sampleTag n) := by
  rw [sampleTag, replicate_succ]
  exact ⟨rfl, rfl⟩

theorem sample_file (hm : m < 65536) (hn : n < 65536) (h : (sample m).file = (sample n).file) : m = n := newFileName_injective hm hn h

/-- The entries of the first archives, the last one in front. -/
def sampleEntries (n : Nat) : List Fields :=
  (List.range n).reverse.map fun k => (sample k).entry sampleDates

theorem sampleEntries_succ (n : Nat) : sampleEntries (n + 1) = (sample n).entry sampleDates :: sampleEntries n := by
  rw [sampleEntries, range_succ, reverse_append]
  rfl

/-- The state after the first uploads. -/
structure Filled (n : Nat) (w : World) : Prop where
  ok : Ok sampleDates w
  ops : ∀ j, w.ops j = if j < n then .done else .unborn
  uploads : ∀ b, b ∈ w.uploads ↔ ∃ k < n, b = sample k
  names : w.names = (List.range n).map fun k => (sample k).file
  entries : w.entries = (sampleEntries n).take kWebDavIndexMaxEntries
  tags : ∀ etag root, (etag, root) ∈ w.tags → etag.length ≤ n

/-- The events of an upload that nobody disturbs. -/
def uploadEvents (n : Nat) : List Event := .Upload n (sample n) :: .next n none (sampleTag n) :: updateEvents n none (sampleTag n)

/-- Entries of one date stay in their order. -/
theorem mergeSort_sampleEntries (objects : List Fields) (h : ∀ object ∈ objects, ∃ k, object = (sample k).entry sampleDates) :
    objects.mergeSort (newestFirst (dateOf sampleDates)) = objects := by
  apply mergeSort_of_pairwise
  rw [pairwise_iff_forall_sublist]
  intro a b hsub
  obtain ⟨k, rfl⟩ := h a (hsub.subset mem_cons_self)
  obtain ⟨l, rfl⟩ := h b (hsub.subset (mem_cons_of_mem _ mem_cons_self))
  rw [newestFirst, dateOf_entry, dateOf_entry]
  rfl

/-- All entries stay when all their archives are there. -/
theorem keepPresent_eq_self {present seen : List Text} {objects : List Fields} (hnodup : (objects.map fileOf).Nodup)
    (h : ∀ object ∈ objects, fileOf object ∈ present ∧ fileOf object ∉ seen) : keepPresent present seen objects = objects := by
  induction objects generalizing seen with
  | nil => rfl
  | cons object objects ih =>
    rw [map_cons, nodup_cons] at hnodup
    obtain ⟨hpresent, hunseen⟩ := h object mem_cons_self
    rw [keepPresent, if_neg (by simp [hpresent, hunseen]), ih hnodup.2]
    intro other hother
    obtain ⟨hpresent', hunseen'⟩ := h other (mem_cons_of_mem _ hother)
    refine ⟨hpresent', ?_⟩
    rw [mem_cons, not_or]
    refine ⟨?_, hunseen'⟩
    intro hsame
    exact hnodup.1 (hsame ▸ mem_map_of_mem hother)

variable {n : Nat} {w : World}

theorem Filled.fresh (h : Filled n w) (root : Fields) : (sampleTag n, root) ∉ w.tags := by
  intro hmem
  have hle := h.tags _ _ hmem
  rw [sampleTag, length_replicate] at hle
  omega

theorem Filled.unborn (h : Filled n w) : w.ops n = .unborn := by
  rw [h.ops n, if_neg (lt_irrefl n)]

/-- Nobody disturbs the upload of one more. -/
theorem Filled.undisturbed (h : Filled n w) (hn : n < 65536) :
    Along (step sampleDates) (Meets sampleDates) w (uploadEvents n) ∧ run (step sampleDates) w (uploadEvents n) =
    (w.stored sampleDates n (sample n) none).updated sampleDates n (sample n).file (some ((sample n).entry sampleDates)) (sampleTag n) := by
  have hupload : Meets sampleDates w (.Upload n (sample n)) := by
    refine ⟨?_, ?_⟩
    · intro b hb hsame
      obtain ⟨k, hk, rfl⟩ := (h.uploads b).1 hb
      exact absurd (sample_file (by omega) hn hsame) (by omega)
    · intro i b hb
      rw [h.ops i] at hb
      split at hb <;> cases hb
  exact along_upload h.ok h.unborn hupload (sampleTag_strong n) h.fresh

theorem mem_sampleEntries {object : Fields} : object ∈ sampleEntries n ↔ ∃ k < n, object = (sample k).entry sampleDates := by
  rw [sampleEntries, mem_map]
  constructor
  · rintro ⟨k, hk, rfl⟩
    exact ⟨k, mem_range.1 (mem_reverse.1 hk), rfl⟩
  · rintro ⟨k, hk, rfl⟩
    exact ⟨k, mem_reverse.2 (mem_range.2 hk), rfl⟩

theorem nodup_sampleEntries (hn : n ≤ 65536) : ((sampleEntries n).map fileOf).Nodup := by
  rw [sampleEntries, map_map]
  refine List.Nodup.map_on ?_ (nodup_reverse.2 nodup_range)
  intro k hk l hl hsame
  rw [mem_reverse, mem_range] at hk hl
  exact sample_file (by omega) (by omega) hsame

/-- The entries after one more upload. -/
theorem Filled.keptEntries_eq (h : Filled n w) (hn : n < 65536) : (keptEntries sampleDates (w.stored sampleDates n (sample n) none).fetched.root
    (w.names ++ [(sample n).file]) (sample n).file (some ((sample n).entry sampleDates))).take
    kWebDavIndexMaxEntries = (sampleEntries (n + 1)).take kWebDavIndexMaxEntries := by
  have hentries : backupsOf (w.stored sampleDates n (sample n) none).fetched.root = (sampleEntries n).take kWebDavIndexMaxEntries := h.entries
  have hold : ∀ object ∈ (sampleEntries n).take kWebDavIndexMaxEntries, ∃ k < n, object = (sample k).entry sampleDates :=
    fun object hobject => mem_sampleEntries.1 (mem_of_mem_take hobject)
  rw [keptEntries, hentries, keepPresent_eq_self, Option.toList_some, singleton_append,
    mergeSort_sampleEntries, sampleEntries_succ, kWebDavIndexMaxEntries, take_succ_cons,
    take_succ_cons, take_take]
  · rfl
  · intro object hobject
    rcases mem_cons.1 hobject with rfl | hobject
    · exact ⟨n, rfl⟩
    · obtain ⟨k, -, hk⟩ := hold object hobject
      exact ⟨k, hk⟩
  · exact (nodup_sampleEntries hn.le).sublist ((take_sublist _ _).map _)
  · intro object hobject
    obtain ⟨k, hk, rfl⟩ := hold object hobject
    rw [fileOf_entry, h.names]
    constructor
    · exact mem_append_left _ (mem_map.2 ⟨k, mem_range.2 hk, rfl⟩)
    · rw [mem_singleton]
      exact fun hsame => absurd (sample_file (by omega) hn hsame) (by omega)

theorem Filled.names_stored (h : Filled n w) (hn : n < 65536) : (w.stored sampleDates n (sample n) none).names = w.names ++ [(sample n).file] := by
  have hkeep : w.folder.filter (fun file => file.name != (sample n).file) = w.folder := by
    rw [filter_eq_self]
    intro file hfile
    rw [bne_iff_ne]
    intro hsame
    have hmem : file.name ∈ w.names := mem_map_of_mem hfile
    rw [h.names] at hmem
    obtain ⟨k, hk, hname⟩ := mem_map.1 hmem
    rw [mem_range] at hk
    exact absurd (sample_file (by omega) hn (hname.trans hsame)) (by omega)
  rw [World.names, World.stored]
  simp only [hkeep, map_append]
  rfl

theorem Filled.upload (h : Filled n w) (hn : n < 65536) : Filled (n + 1) (run (step sampleDates) w (uploadEvents n)) := by
  have hok := inv_run (P := Meets sampleDates) (fun _ _ h hmeets => ok_step h hmeets) _ w h.ok (h.undisturbed hn).1
  rw [(h.undisturbed hn).2] at hok ⊢
  refine ⟨hok, ?_, ?_, ?_, ?_, ?_⟩
  · intro j
    by_cases hj : j = n
    · rw [hj, if_pos (Nat.lt_succ_self n)]
      exact setOp_ops _ n .done
    · have hsame : ((w.stored sampleDates n (sample n) none).updated sampleDates n (sample n).file
          (some ((sample n).entry sampleDates)) (sampleTag n)).ops j = w.ops j :=
        (Function.update_of_ne hj _ _).trans (Function.update_of_ne hj _ _)
      rw [hsame, h.ops j]
      by_cases hlt : j < n
      · rw [if_pos hlt, if_pos (by omega)]
      · rw [if_neg hlt, if_neg (by omega)]
  · intro b
    have hmem : b ∈ ((w.stored sampleDates n (sample n) none).updated sampleDates n (sample n).file
        (some ((sample n).entry sampleDates)) (sampleTag n)).uploads ↔ b = sample n ∨ b ∈ w.uploads :=
      mem_cons
    rw [hmem, h.uploads]
    constructor
    · rintro (rfl | ⟨k, hk, rfl⟩)
      · exact ⟨n, by omega, rfl⟩
      · exact ⟨k, by omega, rfl⟩
    · rintro ⟨k, hk, rfl⟩
      rcases Nat.lt_succ_iff_lt_or_eq.1 hk with hlt | rfl
      · exact .inr ⟨k, hlt, rfl⟩
      · exact .inl rfl
  · have hnames := h.names_stored hn
    rw [h.names] at hnames
    rw [range_succ, map_append]
    exact hnames
  · rw [World.entries, World.fetched, World.updated]
    simp only [backupsOf_withEntries]
    rw [h.names_stored hn]
    exact h.keptEntries_eq hn
  · intro etag root hmem
    have hmem' : (etag, root) = (sampleTag n, _) ∨ (etag, root) ∈ w.tags := mem_cons.1 hmem
    rcases hmem' with hnew | hold
    · rw [(Prod.mk.inj hnew).1, sampleTag, length_replicate]
    · exact (h.tags etag root hold).trans (Nat.le_succ n)

theorem filled_zero : Filled 0 World.init := by
  refine ⟨ok_init, ?_, ?_, rfl, rfl, ?_⟩
  · intro j
    rw [if_neg (Nat.not_lt_zero j)]
    rfl
  · intro b
    constructor
    · exact nofun
    · rintro ⟨k, hk, -⟩
      exact absurd hk (Nat.not_lt_zero k)
  · exact nofun

/-- One upload after another. -/
theorem filled (hn : n ≤ 65536) : ∃ es, Along (step sampleDates) (Meets sampleDates) World.init es ∧
    Filled n (run (step sampleDates) World.init es) := by
  induction n with
  | zero => exact ⟨[], trivial, filled_zero⟩
  | succ n ih =>
    obtain ⟨es, halong, h⟩ := ih (by omega)
    refine ⟨es ++ uploadEvents n, ?_, ?_⟩
    · rw [along_append]
      exact ⟨halong, (h.undisturbed hn).1⟩
    · rw [run_append]
      exact h.upload hn

/-- The entry of the first archive is behind the last place. -/
theorem drop_sampleEntries : (sampleEntries 1001).drop kWebDavIndexMaxEntries = [(sample 0).entry sampleDates] := by
  rw [sampleEntries, ← map_drop, drop_reverse, length_range, take_range]
  rfl

theorem first_cut : (sample 0).entry sampleDates ∉ (sampleEntries 1001).take kWebDavIndexMaxEntries := by
  have hnodup := nodup_sampleEntries (n := 1001) (by decide)
  rw [← take_append_drop kWebDavIndexMaxEntries (sampleEntries 1001), drop_sampleEntries, map_append, nodup_append] at hnodup
  intro hmem
  exact hnodup.2.2 _ (mem_map_of_mem hmem) _ mem_cons_self rfl

/-- No operation is in flight, the index takes all archives that are left, and one of them has no entry. -/
def Lost (d : Dates) (w : World) : Prop :=
  w.Quiet ∧ w.names.length ≤ kWebDavIndexMaxEntries ∧ ∃ b ∈ w.uploads, b.file ∈ w.names ∧ b.entry d ∉ w.entries

/-- The index does not get back what was cut off. -/
theorem full_loses : ∃ es, Along (step sampleDates) (Meets sampleDates) World.init es ∧ Lost sampleDates (run (step sampleDates) World.init es) := by
  obtain ⟨es, halong, h⟩ := filled (n := 1001) (by decide)
  obtain ⟨w, hw⟩ : ∃ w, w = run (step sampleDates) World.init es := ⟨_, rfl⟩
  rw [← hw] at h
  have hmem : ∀ k < 1001, (sample k).file ∈ w.names := by
    intro k hk
    rw [h.names]
    exact mem_map.2 ⟨k, mem_range.2 hk, rfl⟩
  have hmeets : Meets sampleDates w (.Delete 1001 (sample 1000).file) :=
    ⟨sample 1000, (h.uploads _).2 ⟨1000, by decide, rfl⟩, rfl⟩
  have hone : _ ∧ run (step sampleDates) w (.Delete 1001 (sample 1000).file ::
      .next 1001 none (sampleTag 1001) :: updateEvents 1001 none (sampleTag 1001)) = _ :=
    along_delete h.ok h.unborn hmeets (sample 1000).safe (sampleTag_strong 1001) h.fresh
  obtain ⟨hdelete, hrun⟩ := hone
  refine ⟨es ++ _, along_append _ _ _ |>.2 ⟨halong, hw ▸ hdelete⟩, ?_⟩
  rw [run_append, ← hw, hrun]
  have hnames : ((w.deleted 1001 (sample 1000).file).updated sampleDates 1001 (sample 1000).file none
      (sampleTag 1001)).names = w.names.filter (fun name => name != (sample 1000).file) := by
    rw [World.names, World.names, filter_map]
    rfl
  refine ⟨?_, ?_, sample 0, ?_, ?_, ?_⟩
  · intro j
    by_cases hj : j = 1001
    · rw [hj]
      exact .inr (setOp_ops (w.deleted 1001 (sample 1000).file) 1001 .done)
    · have hsame : ((w.deleted 1001 (sample 1000).file).updated sampleDates 1001 (sample 1000).file none (sampleTag 1001)).ops j = w.ops j :=
        (Function.update_of_ne hj _ _).trans (Function.update_of_ne hj _ _)
      rw [hsame, h.ops j]
      split
      · exact .inr rfl
      · exact .inl rfl
  · rw [hnames]
    have hlt : (w.names.filter fun name => name != (sample 1000).file).length < w.names.length := by
      rw [length_filter_lt_length_iff_exists]
      exact ⟨_, hmem 1000 (by decide), by simp⟩
    have hlength : w.names.length = 1001 := by
      rw [h.names, length_map, length_range]
    rw [hlength] at hlt
    exact Nat.le_of_lt_succ hlt
  · exact (h.uploads _).2 ⟨0, by decide, rfl⟩
  · rw [hnames, mem_filter]
    refine ⟨hmem 0 (by decide), ?_⟩
    rw [bne_iff_ne]
    intro hsame
    exact absurd (sample_file (by decide) (by decide) hsame) (by decide)
  · rw [World.entries, World.fetched, World.updated]
    simp only [backupsOf_withEntries]
    intro hkept
    rcases mem_keptEntries.1 (mem_of_mem_take hkept) with hnone | hold
    · cases hnone
    · have hentries := (keepPresent_sublist _ _ _).subset hold
      have hsame : backupsOf (w.deleted 1001 (sample 1000).file).fetched.root = w.entries := rfl
      rw [hsame, h.entries] at hentries
      exact first_cut hentries

end Full

/-! ## Two uploads of one name -/

section Twins

/-- Another archive of the same second with the same random number. -/
def twin : Backup := { sample 0 with size := 7 }

/-- Both archives are stored, and then both entries are recorded, the other way round. -/
def twinEvents : List Event :=
  [.Upload 0 (sample 0), .Upload 1 twin, .next 0 none [], .next 1 none []] ++ (updateEvents 1 none (sampleTag 0) ++ updateEvents 0 none (sampleTag 1))

/-- Both archives are stored. -/
def twinStart : World := run (step sampleDates) World.init [.Upload 0 (sample 0), .Upload 1 twin, .next 0 none [], .next 1 none []]

/-- Entries of a name that was seen do not stay. -/
theorem keepPresent_of_seen {present seen : List Text} {objects : List Fields}
    (h : ∀ object ∈ objects, fileOf object ∈ seen) : keepPresent present seen objects = [] := by
  rw [eq_nil_iff_forall_not_mem]
  intro object hmem
  have hseen := h object ((keepPresent_sublist _ _ _).subset hmem)
  exact (nodup_keepPresent present seen objects).2 object hmem hseen

/-- The archive is one upload's, the entry the other's. -/
theorem twins_lose : Lost sampleDates (run (step sampleDates) World.init twinEvents) := by
  have hfirst : run (step sampleDates) twinStart (updateEvents 1 none (sampleTag 0)) = _ := run_update rfl rfl rfl
  have hsecond : run (step sampleDates) (twinStart.updated sampleDates 1 twin.file
      (some (twin.entry sampleDates)) (sampleTag 0)) (updateEvents 0 none (sampleTag 1)) = _ :=
    run_update (formatOf_withEntries _ _) rfl rfl
  have hstart : backupsOf twinStart.fetched.root = [] := rfl
  rw [twinEvents, run_append, run_append, ← twinStart, hfirst, hsecond]
  refine ⟨?_, by decide, twin, mem_cons_self, mem_cons_self, ?_⟩
  · rintro (_ | _ | i)
    · exact .inr rfl
    · exact .inr rfl
    · exact .inl rfl
  · rw [World.entries, World.fetched, World.updated]
    simp only [backupsOf_withEntries]
    rw [keptEntries, keepPresent_of_seen]
    · rw [Option.toList_some, append_nil, mergeSort_singleton]
      intro hmem
      have hentry : twin.entry sampleDates = (sample 0).entry sampleDates := mem_singleton.1 (mem_of_mem_take hmem)
      have hsize : some (Json.int 7) = some (Json.int 0) :=
        congrArg (fun object => object.get "size".toList) hentry
      exact absurd (Json.int.inj (Option.some.inj hsize)) (by decide)
    · -- What the other upload recorded goes under the same name.
      intro object hmem
      rw [World.fetched, World.updated] at hmem
      simp only [backupsOf_withEntries] at hmem
      rcases mem_keptEntries.1 (mem_of_mem_take hmem) with hadded | hold
      · rw [← Option.some.inj hadded]
        exact mem_cons_self
      · rw [hstart] at hold
        cases hold

end Twins

/-! ## Every run -/

/-- The index loses no update: in every run, whenever no operation is in flight. -/
theorem index_kept (d : Dates) (es : List Event) (hmeets : Along (step d) (Meets d) World.init es)
    (hquiet : (run (step d) World.init es).Quiet) : IndexOk d (run (step d) World.init es) :=
  indexOk_of_ok (inv_run (P := Meets d) (fun _ _ h hmeets => ok_step h hmeets) es _ ok_init hmeets)
    hquiet

/-- Two uploads, one after the other. -/
theorem index_kept_two : IndexOk sampleDates (run (step sampleDates) World.init (uploadEvents 0 ++ uploadEvents 1)) := by
  have hsecond := filled_zero.upload (by decide)
  have hlast := hsecond.upload (by decide)
  rw [← run_append] at hlast
  refine index_kept sampleDates _ ?_ ?_
  · rw [along_append]
    exact ⟨(filled_zero.undisturbed (by decide)).1, (hsecond.undisturbed (by decide)).1⟩
  · intro j
    rw [hlast.ops j]
    split
    · exact .inr rfl
    · exact .inl rfl

/-- What was cut off does not come back, and one name for two uploads mixes them up. -/
theorem entries_lost : (∃ es, Along (step sampleDates) (Meets sampleDates) World.init es ∧
    Lost sampleDates (run (step sampleDates) World.init es)) ∧ Lost sampleDates (run (step sampleDates) World.init twinEvents) :=
  ⟨full_loses, twins_lose⟩

end Throne.Engine.WebDavBackup
