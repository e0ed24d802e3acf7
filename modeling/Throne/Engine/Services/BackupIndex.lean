import Mathlib.Data.List.Perm.Subperm
import Throne.Engine.Services.WebDavBackup

/-!
# The backup index loses no update

Whatever the order of the requests of all operations, the index keeps the entry of every archive in the
folder, unless an update has cut it off behind `kWebDavIndexMaxEntries` others that are not older
(`ok_step`, `indexOk_of_ok`). What carries this: an index is only replaced while it is the one that was fetched, an entry
in it stands for an archive uploaded before it was fetched, and no name is used twice, so that an archive
that is there when the index is replaced was there when the folder was listed.
-/

namespace Throne.Engine.WebDavBackup

open Lib.Texts Lib.Json Lib.Runs List

/-! ## Entries -/

section Entries

variable (d : Dates)

@[simp] theorem fileOf_entry (b : Backup) : fileOf (b.entry d) = b.file := rfl

@[simp] theorem dateOf_entry (b : Backup) : dateOf d (b.entry d) = some b.created_at := d.isoDate_isoText b.created_at

theorem filterMap_asObject (entries : List Fields) : (entries.map Json.object).filterMap asObject = entries := by
  rw [filterMap_map]
  exact filterMap_some

theorem filterMap_asText (texts : List Text) : (texts.map Json.text).filterMap asText = texts := by
  rw [filterMap_map]
  exact filterMap_some

@[simp] theorem backupsOf_withEntries (root : Fields) (entries : List Fields) : backupsOf (withEntries root entries) = entries := by
  rw [backupsOf, withEntries, Fields.arrayAt_put_self]
  exact filterMap_asObject entries

@[simp] theorem formatOf_withEntries (root : Fields) (entries : List Fields) : formatOf (withEntries root entries) = kWebDavIndexFormat := by
  rw [formatOf, withEntries, Fields.get_put_other (by decide), Fields.get_put_self]

/-- What `List` shows of an archive, as its uploader recorded it. -/
def Backup.described (b : Backup) : Entry :=
  ⟨b.file, some b.created_at, b.size, b.sha256, b.device_id, b.device_name, b.platform, b.app_version, b.parts, true⟩

theorem toLower_hex {c : Char} (h : (c.isDigit || (97 ≤ c.toNat && c.toNat ≤ 102)) = true) : c.toLower = c := by
  refine dif_neg ?_
  rintro ⟨hlow, hhigh⟩
  have hlow' : 65 ≤ c.toNat := hlow
  have hhigh' : c.toNat ≤ 90 := hhigh
  rcases Bool.or_eq_true_iff.1 h with hdigit | hletter
  · have h57 : c.toNat ≤ 57 := (Bool.and_eq_true_iff.1 hdigit).2 |> of_decide_eq_true
    omega
  · have h97 : 97 ≤ c.toNat := of_decide_eq_true (Bool.and_eq_true_iff.1 hletter).1
    omega

/-- An upload's entry reads as it was recorded. -/
theorem entryFromJson_entry (b : Backup) : WebDavEntryFromJson d (b.entry d) = some b.described := by
  have hhash : b.sha256.map Char.toLower = b.sha256 := by
    rw [map_congr_left (g := id), map_id]
    intro c hc
    have hall := (Bool.and_eq_true_iff.1 b.hashed).2
    exact toLower_hex (all_eq_true.1 hall c hc)
  have hfile : (b.entry d).textAt "file".toList = b.file := rfl
  have hsha : (b.entry d).textAt "sha256".toList = b.sha256 := rfl
  have hdate : d.isoDate ((b.entry d).textAt "created_at".toList) = some b.created_at := d.isoDate_isoText b.created_at
  have hsize : (b.entry d).get "size".toList = some (.int b.size) := rfl
  have hpartsAt : (b.entry d).arrayAt "parts".toList = b.parts.map Json.text := rfl
  rw [WebDavEntryFromJson]
  simp only [hfile, hsha, hhash, hdate, hsize, hpartsAt, filterMap_asText, b.safe, b.hashed, if_true, Int.natCast_nonneg]
  rfl

end Entries

/-! ## The new index -/

variable {object root : Fields}

section Kept

variable {d : Dates}

theorem newestFirst_trans {α : Type} (date : α → Date) (a b c : α)
    (hab : newestFirst date a b = true) (hbc : newestFirst date b c = true) : newestFirst date a c = true := by
  rw [newestFirst, Bool.not_eq_true'] at *
  cases ha : date a <;> cases hb : date b <;> cases hc : date c <;> simp_all [WebDavNewer]
  omega

theorem newestFirst_total {α : Type} (date : α → Date) (a b : α) : (newestFirst date a b || newestFirst date b a) = true := by
  rw [newestFirst, newestFirst]
  cases date a <;> cases date b <;> simp [WebDavNewer]
  omega

/-- What is sorted has nothing newer behind. -/
theorem pairwise_newestFirst {α : Type} (date : α → Date) (l : List α) :
    (l.mergeSort (newestFirst date)).Pairwise fun a b => WebDavNewer (date b) (date a) = false :=
  (pairwise_mergeSort (newestFirst_trans date) (newestFirst_total date) l).imp fun h => by
    simpa [newestFirst] using h

variable {present : List Text}

theorem mem_keptEntries {file : Text} {added : Option Fields} : object ∈ keptEntries d root present file added ↔
    object ∈ added ∨ object ∈ keepPresent present [file] (backupsOf root) := by
  rw [keptEntries, mem_mergeSort, mem_append, Option.mem_toList, Option.mem_def]

theorem keepPresent_sublist (present : List Text) (seen : List Text) (objects : List Fields) :
    (keepPresent present seen objects).Sublist objects := by
  induction objects generalizing seen with
  | nil => exact List.Sublist.slnil
  | cons object objects ih =>
    rw [keepPresent]
    split
    · exact (ih seen).cons object
    · exact (ih _).cons_cons object

/-- No name seen before, and none twice. -/
theorem nodup_keepPresent (present : List Text) (seen : List Text) (objects : List Fields) :
    ((keepPresent present seen objects).map fileOf).Nodup ∧ ∀ object ∈ keepPresent present seen objects, fileOf object ∉ seen := by
  induction objects generalizing seen with
  | nil => exact ⟨nodup_nil, nofun⟩
  | cons object objects ih =>
    rw [keepPresent]
    split
    · exact ih seen
    · next hkept =>
      obtain ⟨hnodup, hunseen⟩ := ih (fileOf object :: seen)
      have hfresh : fileOf object ∉ seen := by
        intro hmem
        exact hkept (by simp [hmem])
      refine ⟨?_, ?_⟩
      · rw [map_cons, nodup_cons]
        refine ⟨?_, hnodup⟩
        intro hmem
        obtain ⟨other, hother, hsame⟩ := mem_map.1 hmem
        exact hunseen other hother (hsame ▸ mem_cons_self)
      · intro other hother
        rcases mem_cons.1 hother with rfl | hother
        · exact hfresh
        · exact fun hmem => hunseen other hother (mem_cons_of_mem _ hmem)

/-- An entry stays when its archive is there and its name is no other's. -/
theorem mem_keepPresent {seen : List Text} {objects : List Fields} (hmem : object ∈ objects) (hnodup : (objects.map fileOf).Nodup)
    (hpresent : fileOf object ∈ present) (hunseen : fileOf object ∉ seen) : object ∈ keepPresent present seen objects := by
  induction objects generalizing seen with
  | nil => cases hmem
  | cons first objects ih =>
    rw [map_cons, nodup_cons] at hnodup
    rw [keepPresent]
    rcases mem_cons.1 hmem with rfl | hmem
    · rw [if_neg (by simp [hunseen, hpresent])]
      exact mem_cons_self
    · split
      · exact ih hmem hnodup.2 hunseen
      · apply mem_cons_of_mem
        refine ih hmem hnodup.2 ?_
        rw [mem_cons, not_or]
        refine ⟨?_, hunseen⟩
        intro hsame
        exact hnodup.1 (hsame ▸ mem_map_of_mem hmem)

theorem nodup_keptEntries {file : Text} {added : Option Fields} (hadded : ∀ object ∈ added, fileOf object = file) :
    ((keptEntries d root present file added).map fileOf).Nodup := by
  have hperm : (keptEntries d root present file added).Perm (added.toList ++ keepPresent present [file] (backupsOf root)) := mergeSort_perm _ _
  rw [(hperm.map fileOf).nodup_iff]
  obtain ⟨hnodup, hunseen⟩ := nodup_keepPresent present [file] (backupsOf root)
  cases added with
  | none => exact hnodup
  | some object =>
    rw [Option.toList_some, singleton_append, map_cons, nodup_cons]
    refine ⟨?_, hnodup⟩
    intro hmem
    obtain ⟨other, hother, hsame⟩ := mem_map.1 hmem
    apply hunseen other hother
    rw [hsame, hadded object rfl]
    exact mem_cons_self

end Kept

/-! ## The invariant -/

section Invariant

variable (d : Dates)

/-- The names in the folder. -/
def World.names (w : World) : List Text := w.folder.map WebDavListedFile.name

/-- A strong tag. -/
def StrongTag (etag : Text) : Prop := etag.isEmpty = false ∧ "W/".toList.isPrefixOf etag = false

/-- The runs in question. Uploads draw names of their own, what is deleted was uploaded, the server's tags
are strong and name one content each, and no update needs more than three rounds. -/
def Meets (w : World) : Event → Prop
  | .Upload _ backup => (∀ b ∈ w.uploads, b.file ≠ backup.file) ∧
      ∀ i b, w.ops i = .uploadPut b → b.file ≠ backup.file
  | .Delete _ file => ∃ b ∈ w.uploads, b.file = file
  | .next i modified etag => StrongTag etag ∧
      (∀ root, (request d w i modified etag).index = some (root, etag) → ∀ root', (etag, root') ∈ w.tags → root' = root) ∧
      ∀ file added, (request d w i modified etag).ops i ≠ .fetch file added kWebDavIndexRounds

/-- The entries of an index are those of uploads, each name once. -/
structure Entries (w : World) (root : Fields) : Prop where
  once : ((backupsOf root).map fileOf).Nodup
  uploaded : ∀ object ∈ backupsOf root, ∃ b ∈ w.uploads, object = b.entry d

/-- What an update is about: an upload's own entry, or an archive that is gone. -/
def Target (w : World) (file : Text) (added : Option Fields) : Prop :=
  (∃ b ∈ w.uploads, b.file = file ∧ added = some (b.entry d)) ∨ added = none ∧ (∃ b ∈ w.uploads, b.file = file) ∧ file ∉ w.names

/-- An index that was served, or none. -/
def Fetched (w : World) (index : WebDavIndex) : Prop :=
  index.existed = false ∧ index.root = [] ∧ index.etag = [] ∨
    index.existed = true ∧ (index.etag, index.root) ∈ w.tags ∧ StrongTag index.etag ∧ Entries d w index.root

/-- What an operation knows at each request. An archive that is still there and has an entry in the index
that was fetched is in the listing. -/
def OpOk (w : World) : Op → Prop
  | .unborn => True
  | .uploadPut b => ∀ b' ∈ w.uploads, b'.file ≠ b.file
  | .deleteRequest file => ∃ b ∈ w.uploads, b.file = file
  | .fetch file added round => Target d w file added ∧ round < kWebDavIndexRounds
  | .list file added round index =>
    Target d w file added ∧ round < kWebDavIndexRounds ∧ Fetched d w index
  | .put file added round index present =>
    Target d w file added ∧ round < kWebDavIndexRounds ∧ Fetched d w index ∧
      ∀ object ∈ backupsOf index.root, fileOf object ∈ w.names → fileOf object ∈ present
  | .done => True

/-- The entry an operation is about to record. -/
def Op.added : Op → Option Fields
  | .fetch _ added _ => added
  | .list _ added _ _ => added
  | .put _ added _ _ _ => added
  | _ => none

/-- The entries of the index. -/
def World.entries (w : World) : List Fields := backupsOf w.fetched.root

/-- An entry is in the index, or an update has cut it off. -/
def Recorded (w : World) (object : Fields) : Prop := object ∈ w.entries ∨ ∃ written, (object, written) ∈ w.cuts

/-- An entry that was cut off, and what was written instead: as many others as the index takes, of other
uploads and none of them older. -/
structure CutOk (uploads : List Backup) (object : Fields) (written : List Fields) : Prop where
  full : written.length = kWebDavIndexMaxEntries
  notOlder : ∀ kept ∈ written, WebDavNewer (dateOf d object) (dateOf d kept) = false
  once : ((written ++ [object]).map fileOf).Nodup
  uploaded : ∀ kept ∈ written ++ [object], ∃ b ∈ uploads, kept = b.entry d

/-- The invariant. -/
structure Ok (w : World) : Prop where
  folder : w.names.Nodup
  folderUploads : ∀ name ∈ w.names, ∃ b ∈ w.uploads, b.file = name
  distinct : ∀ b ∈ w.uploads, ∀ b' ∈ w.uploads, b.file = b'.file → b = b'
  pending : ∀ i j b b', w.ops i = .uploadPut b → w.ops j = .uploadPut b' → b.file = b'.file → i = j
  index : ∀ root etag, w.index = some (root, etag) → (etag, root) ∈ w.tags ∧ StrongTag etag ∧ Entries d w root ∧ formatOf root = kWebDavIndexFormat
  tags : ∀ etag root root', (etag, root) ∈ w.tags → (etag, root') ∈ w.tags → root = root'
  ops : ∀ i, OpOk d w (w.ops i)
  recorded : ∀ b ∈ w.uploads, b.file ∈ w.names → Recorded w (b.entry d) ∨ ∃ i, (w.ops i).added = some (b.entry d)
  cut : ∀ object written, (object, written) ∈ w.cuts → CutOk d w.uploads object written

end Invariant

variable {b : Backup} {i : Nat}

section Steps

variable {d : Dates} {w : World}

theorem ok_init : Ok d World.init where
  folder := nodup_nil
  folderUploads _ h := absurd h not_mem_nil
  distinct _ h := absurd h not_mem_nil
  pending _ _ _ _ h := nomatch h
  index _ _ h := nomatch h
  tags _ _ _ h := absurd h not_mem_nil
  ops _ := trivial
  recorded _ h := absurd h not_mem_nil
  cut _ _ h := absurd h not_mem_nil

/-! ### What stays true -/

variable {w' : World}

theorem Entries.mono (h : Entries d w root) (huploads : ∀ b ∈ w.uploads, b ∈ w'.uploads) : Entries d w' root where
  once := h.once
  uploaded object hobject := by
    obtain ⟨b, hb, hentry⟩ := h.uploaded object hobject
    exact ⟨b, huploads b hb, hentry⟩

variable {index : WebDavIndex}

theorem Fetched.mono (h : Fetched d w index) (huploads : ∀ b ∈ w.uploads, b ∈ w'.uploads)
    (htags : ∀ t ∈ w.tags, t ∈ w'.tags) : Fetched d w' index := by
  rcases h with hnone | ⟨hexisted, htag, hstrong, hentries⟩
  · exact .inl hnone
  · exact .inr ⟨hexisted, htags _ htag, hstrong, hentries.mono huploads⟩

theorem CutOk.mono {uploads uploads' : List Backup} {written : List Fields}
    (h : CutOk d uploads object written) (huploads : ∀ b ∈ uploads, b ∈ uploads') : CutOk d uploads' object written where
  full := h.full
  notOlder := h.notOlder
  once := h.once
  uploaded kept hkept := by
    obtain ⟨b, hb, hentry⟩ := h.uploaded kept hkept
    exact ⟨b, huploads b hb, hentry⟩

/-- No archive that was uploaded before comes back into the folder. -/
def NoReturn (w w' : World) : Prop := ∀ b ∈ w.uploads, b.file ∈ w'.names → b.file ∈ w.names

variable {file : Text} {added : Option Fields}

theorem Target.mono (h : Target d w file added) (huploads : ∀ b ∈ w.uploads, b ∈ w'.uploads) (hreturn : NoReturn w w') : Target d w' file added := by
  rcases h with ⟨b, hb, hfile, hadded⟩ | ⟨hadded, ⟨b, hb, rfl⟩, hgone⟩
  · exact .inl ⟨b, huploads b hb, hfile, hadded⟩
  · exact .inr ⟨hadded, ⟨b, huploads b hb, rfl⟩, fun hback => hgone (hreturn b hb hback)⟩

/-- What another operation knows stays true. -/
theorem opOk_mono {op : Op} (h : OpOk d w op) (huploads : ∀ b ∈ w.uploads, b ∈ w'.uploads)
    (hreturn : NoReturn w w') (htags : ∀ t ∈ w.tags, t ∈ w'.tags)
    (hpending : ∀ b, op = .uploadPut b → ∀ b' ∈ w'.uploads, b'.file ≠ b.file) : OpOk d w' op := by
  cases op with
  | unborn | done => trivial
  | uploadPut b => exact hpending b rfl
  | deleteRequest file =>
    obtain ⟨b, hb, hfile⟩ := h
    exact ⟨b, huploads b hb, hfile⟩
  | fetch file added round => exact ⟨h.1.mono huploads hreturn, h.2⟩
  | list file added round index =>
    obtain ⟨htarget, hround, hfetched⟩ := h
    exact ⟨htarget.mono huploads hreturn, hround, hfetched.mono huploads htags⟩
  | put file added round index present =>
    obtain ⟨htarget, hround, hfetched, hpresent⟩ := h
    refine ⟨htarget.mono huploads hreturn, hround, hfetched.mono huploads htags, ?_⟩
    intro object hobject hname
    apply hpresent object hobject
    -- An entry that was fetched is that of an archive uploaded before.
    rcases hfetched with ⟨-, hroot, -⟩ | ⟨-, -, -, hentries⟩
    · rw [hroot] at hobject
      cases hobject
    · obtain ⟨b, hb, rfl⟩ := hentries.uploaded object hobject
      exact hreturn b hb hname

/-- What the server answers is an index that was served, or none. -/
theorem fetched_fetched (h : Ok d w) : Fetched d w w.fetched ∧ formatOf w.fetched.root = kWebDavIndexFormat := by
  rw [World.fetched]
  cases hindex : w.index with
  | none => exact ⟨.inl ⟨rfl, rfl, rfl⟩, rfl⟩
  | some current =>
    obtain ⟨root, etag⟩ := current
    obtain ⟨htag, hstrong, hentries, hformat⟩ := h.index root etag hindex
    have hsame : (if !etag.isEmpty && !"W/".toList.isPrefixOf etag then etag else []) = etag := by
      rw [hstrong.1, hstrong.2]
      rfl
    refine ⟨.inr ⟨rfl, ?_, ?_, hentries⟩, hformat⟩
    · simp only [hsame]
      exact htag
    · simp only [hsame]
      exact hstrong

/-- An index is only replaced while it is the one that was fetched. -/
theorem entries_of_accepts (h : Ok d w) {round : Nat} (hround : round < kWebDavIndexRounds)
    (hfetched : Fetched d w index) (haccepts : w.accepts round index = true) : w.entries = backupsOf index.root := by
  rw [World.accepts, decide_eq_true hround] at haccepts
  rcases hfetched with ⟨hexisted, hroot, hetag⟩ | ⟨hexisted, htag, hstrong, -⟩
  · rw [hetag, hexisted] at haccepts
    have hnone : w.index = none := by simpa using haccepts
    rw [World.entries, World.fetched, hnone, hroot]
  · rw [hstrong.1] at haccepts
    have hsome : w.index.map Prod.snd = some index.etag := by simpa using haccepts
    obtain ⟨⟨root, etag⟩, hindex, rfl⟩ := Option.map_eq_some_iff.1 hsome
    have hsame := h.tags _ root index.root (h.index root _ hindex).1 htag
    rw [World.entries, World.fetched, hindex, ← hsame]

/-! ### One step -/

/-- An operation that moves on and leaves the server alone. -/
theorem ok_setOp (h : Ok d w) {op : Op} (hop : OpOk d w op)
    (hadded : ∀ b ∈ w.uploads, (w.ops i).added = some (b.entry d) → op.added = some (b.entry d))
    (hpending : ∀ b j b', op = .uploadPut b → w.ops j = .uploadPut b' → b'.file ≠ b.file) : Ok d (w.setOp i op) := by
  have hops : ∀ j, j ≠ i → (w.setOp i op).ops j = w.ops j :=
    fun j hne => Function.update_of_ne hne _ _
  have hself : (w.setOp i op).ops i = op := Function.update_self _ _ _
  refine ⟨h.folder, h.folderUploads, h.distinct, ?_, ?_, h.tags, ?_, ?_, h.cut⟩
  · intro j k b b' hj hk hfile
    by_cases hji : j = i
    · by_cases hki : k = i
      · rw [hji, hki]
      · rw [hji, hself] at hj
        rw [hops k hki] at hk
        exact absurd hfile.symm (hpending b k b' hj hk)
    · rw [hops j hji] at hj
      by_cases hki : k = i
      · rw [hki, hself] at hk
        exact absurd hfile (hpending b' j b hk hj)
      · rw [hops k hki] at hk
        exact h.pending j k b b' hj hk hfile
  · intro root etag hindex
    obtain ⟨htag, hstrong, hentries, hformat⟩ := h.index root etag hindex
    exact ⟨htag, hstrong, ⟨hentries.once, hentries.uploaded⟩, hformat⟩
  · intro j
    have hsame : ∀ op', OpOk d w op' → OpOk d (w.setOp i op) op' := fun op' hop' =>
      opOk_mono hop' (fun _ hb => hb) (fun _ _ hback => hback) (fun _ ht => ht) fun b heq => by
        subst heq
        exact hop'
    by_cases hji : j = i
    · rw [hji, hself]
      exact hsame op hop
    · rw [hops j hji]
      exact hsame _ (h.ops j)
  · intro b hb hname
    rcases h.recorded b hb hname with hrecorded | ⟨j, hj⟩
    · exact .inl hrecorded
    · right
      by_cases hji : j = i
      · subst hji
        exact ⟨j, by rw [hself]; exact hadded b hb hj⟩
      · exact ⟨j, by rw [hops j hji]; exact hj⟩

/-- An archive is stored under a new name. -/
theorem ok_uploadPut (h : Ok d w) {modified : Date} (hat : w.ops i = .uploadPut b) (hself : w'.ops i = .fetch b.file (some (b.entry d)) 1)
    (hops : ∀ j, j ≠ i → w'.ops j = w.ops j)
    (hfolder : w'.folder = w.folder.filter (fun file => file.name != b.file) ++ [⟨b.file, b.size, modified⟩])
    (huploads : w'.uploads = b :: w.uploads) (hindex : w'.index = w.index)
    (htags : w'.tags = w.tags) (hcuts : w'.cuts = w.cuts) : Ok d w' := by
  have hfresh : ∀ b' ∈ w.uploads, b'.file ≠ b.file := by
    have hop := h.ops i
    rw [hat] at hop
    exact hop
  have hnew : b.file ∉ w.names := by
    intro hmem
    obtain ⟨b', hb', hfile⟩ := h.folderUploads b.file hmem
    exact hfresh b' hb' hfile
  have hkeep : w.folder.filter (fun file => file.name != b.file) = w.folder := by
    rw [filter_eq_self]
    intro file hfile
    rw [bne_iff_ne]
    intro hsame
    exact hnew (hsame ▸ mem_map_of_mem hfile)
  have hnames : w'.names = w.names ++ [b.file] := by
    rw [World.names, hfolder, hkeep, map_append]
    rfl
  have hmono : ∀ b' ∈ w.uploads, b' ∈ w'.uploads := by
    intro b' hb'
    rw [huploads]
    exact mem_cons_of_mem _ hb'
  have hreturn : NoReturn w w' := by
    intro b' hb' hname
    rw [hnames, mem_append, mem_singleton] at hname
    exact hname.resolve_right (hfresh b' hb')
  refine ⟨?_, ?_, ?_, ?_, ?_, ?_, ?_, ?_, ?_⟩
  · rw [hnames, nodup_append]
    refine ⟨h.folder, nodup_singleton _, ?_⟩
    rintro name hname other hother rfl
    rw [mem_singleton] at hother
    exact hnew (hother ▸ hname)
  · intro name hname
    rw [hnames, mem_append, mem_singleton] at hname
    rcases hname with hname | rfl
    · obtain ⟨b', hb', hfile⟩ := h.folderUploads name hname
      exact ⟨b', hmono b' hb', hfile⟩
    · exact ⟨b, by rw [huploads]; exact mem_cons_self, rfl⟩
  · intro b₁ hb₁ b₂ hb₂ hfile
    rw [huploads, mem_cons] at hb₁ hb₂
    rcases hb₁ with rfl | hold₁ <;> rcases hb₂ with rfl | hold₂
    · rfl
    · exact absurd hfile.symm (hfresh b₂ hold₂)
    · exact absurd hfile (hfresh b₁ hold₁)
    · exact h.distinct b₁ hold₁ b₂ hold₂ hfile
  · intro j k b₁ b₂ hj hk hfile
    have hother : ∀ l b', w'.ops l = .uploadPut b' → w.ops l = .uploadPut b' := by
      intro l b' hl
      rw [← hops l ?_]
      · exact hl
      · rintro rfl
        rw [hself] at hl
        cases hl
    exact h.pending j k b₁ b₂ (hother j b₁ hj) (hother k b₂ hk) hfile
  · intro root etag hnow
    rw [hindex] at hnow
    obtain ⟨htag, hstrong, hentries, hformat⟩ := h.index root etag hnow
    rw [htags]
    exact ⟨htag, hstrong, hentries.mono hmono, hformat⟩
  · rw [htags]
    exact h.tags
  · intro j
    by_cases hji : j = i
    · rw [hji, hself]
      refine ⟨.inl ⟨b, ?_, rfl, rfl⟩, by decide⟩
      rw [huploads]
      exact mem_cons_self
    · rw [hops j hji]
      refine opOk_mono (h.ops j) hmono hreturn (fun _ ht => by rwa [htags]) ?_
      intro b' hb' b'' hb''
      rw [huploads, mem_cons] at hb''
      rcases hb'' with rfl | hold
      · intro hfile
        exact hji (h.pending i j _ b' hat hb' hfile).symm
      · have hpending := h.ops j
        rw [hb'] at hpending
        exact hpending b'' hold
  · intro b' hb' hname
    rw [huploads, mem_cons] at hb'
    rcases hb' with rfl | hold
    · exact .inr ⟨i, by rw [hself]; rfl⟩
    · rcases h.recorded b' hold (hreturn b' hold hname) with hrecorded | ⟨j, hj⟩
      · left
        rw [Recorded, World.entries, World.fetched, hindex, hcuts]
        exact hrecorded
      · right
        have hji : j ≠ i := by
          rintro rfl
          rw [hat] at hj
          cases hj
        exact ⟨j, (congrArg Op.added (hops j hji)).trans hj⟩
  · intro object written hcut
    rw [hcuts] at hcut
    exact (h.cut object written hcut).mono hmono

/-- An archive goes. -/
theorem ok_deleteRequest (h : Ok d w) (hat : w.ops i = .deleteRequest file)
    (hself : w'.ops i = .fetch file none 1) (hops : ∀ j, j ≠ i → w'.ops j = w.ops j)
    (hfolder : w'.folder = w.folder.filter fun listed => listed.name != file)
    (huploads : w'.uploads = w.uploads) (hindex : w'.index = w.index) (htags : w'.tags = w.tags) (hcuts : w'.cuts = w.cuts) : Ok d w' := by
  have huploaded : ∃ b ∈ w.uploads, b.file = file := by
    have hop := h.ops i
    rw [hat] at hop
    exact hop
  have hsub : w'.names.Sublist w.names := by
    rw [World.names, hfolder]
    exact List.filter_sublist.map _
  have hgone : file ∉ w'.names := by
    intro hmem
    obtain ⟨listed, hlisted, hname⟩ := mem_map.1 hmem
    rw [hfolder, mem_filter] at hlisted
    exact absurd hname (bne_iff_ne.1 hlisted.2)
  have hmono : ∀ b ∈ w.uploads, b ∈ w'.uploads := fun b hb => huploads ▸ hb
  have hreturn : NoReturn w w' := fun _ _ hname => hsub.subset hname
  have hupload : ∀ j b, w'.ops j = .uploadPut b → w.ops j = .uploadPut b := by
    intro j b hj
    rw [← hops j ?_]
    · exact hj
    · rintro rfl
      rw [hself] at hj
      cases hj
  refine ⟨h.folder.sublist hsub, ?_, ?_, ?_, ?_, ?_, ?_, ?_, ?_⟩
  · intro name hname
    rw [huploads]
    exact h.folderUploads name (hsub.subset hname)
  · rw [huploads]
    exact h.distinct
  · intro j k b b' hj hk
    exact h.pending j k b b' (hupload j b hj) (hupload k b' hk)
  · intro root etag hnow
    rw [hindex] at hnow
    obtain ⟨htag, hstrong, hentries, hformat⟩ := h.index root etag hnow
    rw [htags]
    exact ⟨htag, hstrong, hentries.mono hmono, hformat⟩
  · rw [htags]
    exact h.tags
  · intro j
    by_cases hji : j = i
    · rw [hji, hself]
      refine ⟨.inr ⟨rfl, ?_, hgone⟩, by decide⟩
      rw [huploads]
      exact huploaded
    · rw [hops j hji]
      refine opOk_mono (h.ops j) hmono hreturn (fun _ ht => by rwa [htags]) ?_
      intro b hb
      rw [huploads]
      have hpending := h.ops j
      rw [hb] at hpending
      exact hpending
  · intro b hb hname
    rw [huploads] at hb
    rcases h.recorded b hb (hsub.subset hname) with hrecorded | ⟨j, hj⟩
    · left
      rw [Recorded, World.entries, World.fetched, hindex, hcuts]
      exact hrecorded
    · right
      have hji : j ≠ i := by
        rintro rfl
        rw [hat] at hj
        cases hj
      exact ⟨j, (congrArg Op.added (hops j hji)).trans hj⟩
  · rw [hcuts, huploads]
    exact h.cut

variable {present : List Text}

/-- What an index may hold after an update, before it is cut: entries of uploads. -/
theorem uploaded_keptEntries (htarget : Target d w file added) (hfetched : Fetched d w index) (hmem : object ∈ keptEntries d index.root present file added) :
    ∃ b ∈ w.uploads, object = b.entry d := by
  rcases mem_keptEntries.1 hmem with hadded | hkept
  · rcases htarget with ⟨b, hb, -, rfl⟩ | ⟨rfl, -⟩
    · exact ⟨b, hb, (Option.some.inj hadded).symm⟩
    · cases hadded
  · have hobject := (keepPresent_sublist present [file] _).subset hkept
    rcases hfetched with ⟨-, hroot, -⟩ | ⟨-, -, -, hentries⟩
    · rw [hroot] at hobject
      cases hobject
    · exact hentries.uploaded object hobject

theorem fileOf_added (htarget : Target d w file added) : ∀ object ∈ added, fileOf object = file := by
  intro object hobject
  rcases htarget with ⟨b, -, hfile, rfl⟩ | ⟨rfl, -⟩
  · rw [← Option.some.inj hobject, fileOf_entry]
    exact hfile
  · cases hobject

/-- An entry of the index that was fetched, whose archive is there, is in the new one before it is cut. -/
theorem mem_keptEntries_of_fetched (h : Ok d w) (htarget : Target d w file added) (hfetched : Fetched d w index)
    (hpresent : ∀ object ∈ backupsOf index.root, fileOf object ∈ w.names → fileOf object ∈ present) (hb : b ∈ w.uploads) (hname : b.file ∈ w.names)
    (hentry : b.entry d ∈ backupsOf index.root) : b.entry d ∈ keptEntries d index.root present file added := by
  rw [mem_keptEntries]
  by_cases hfile : b.file = file
  · -- The entry of the updater's own archive is written anew.
    left
    rcases htarget with ⟨b', hb', hfile', rfl⟩ | ⟨-, -, hgone⟩
    · rw [h.distinct b hb b' hb' (hfile.trans hfile'.symm)]
      rfl
    · exact absurd (hfile ▸ hname) hgone
  · right
    have hnodup : ((backupsOf index.root).map fileOf).Nodup := by
      rcases hfetched with ⟨-, hroot, -⟩ | ⟨-, -, -, hentries⟩
      · rw [hroot]
        exact nodup_nil
      · exact hentries.once
    apply mem_keepPresent hentry hnodup (hpresent _ hentry hname)
    rw [mem_singleton, fileOf_entry]
    exact hfile

/-- What an update cuts off. -/
theorem cut_keptEntries (htarget : Target d w file added) (hfetched : Fetched d w index)
    (hmem : object ∈ (keptEntries d index.root present file added).drop kWebDavIndexMaxEntries) :
    CutOk d w.uploads object ((keptEntries d index.root present file added).take kWebDavIndexMaxEntries) := by
  have hsplit := take_append_drop kWebDavIndexMaxEntries (keptEntries d index.root present file added)
  have hsub : ((keptEntries d index.root present file added).take kWebDavIndexMaxEntries ++
      [object]).Sublist (keptEntries d index.root present file added) := by
    conv_rhs => rw [← hsplit]
    exact (List.Sublist.refl _).append (singleton_sublist.2 hmem)
  refine ⟨?_, ?_, ?_, ?_⟩
  · rw [length_take, Nat.min_eq_left]
    by_contra hshort
    rw [drop_of_length_le (by omega)] at hmem
    cases hmem
  · intro kept hkept
    have hsorted := pairwise_newestFirst (dateOf d) (added.toList ++ keepPresent present [file] (backupsOf index.root))
    rw [← keptEntries, ← hsplit, pairwise_append] at hsorted
    exact hsorted.2.2 kept hkept object hmem
  · exact (nodup_keptEntries (fileOf_added htarget)).sublist (hsub.map _)
  · intro kept hkept
    exact uploaded_keptEntries htarget hfetched (hsub.subset hkept)

/-- The index is replaced. -/
theorem ok_put (h : Ok d w) {round : Nat} {etag : Text}
    (hat : w.ops i = .put file added round index present) (haccepts : w.accepts round index = true)
    (hself : w'.ops i = .done) (hops : ∀ j, j ≠ i → w'.ops j = w.ops j) (hfolder : w'.folder = w.folder) (huploads : w'.uploads = w.uploads)
    (hroot : root = withEntries index.root ((keptEntries d index.root present file added).take kWebDavIndexMaxEntries))
    (hindex : w'.index = some (root, etag)) (htags : w'.tags = (etag, root) :: w.tags)
    (hcuts : w'.cuts = ((keptEntries d index.root present file added).drop kWebDavIndexMaxEntries).map (fun object => (object, (keptEntries d index.root present file added).take kWebDavIndexMaxEntries)) ++ w.cuts)
    (hstrong : StrongTag etag) (hfresh : ∀ root', (etag, root') ∈ w.tags → root' = root) : Ok d w' := by
  obtain ⟨htarget, hround, hfetched, hpresent⟩ : OpOk d w (.put file added round index present) := by
    have hop := h.ops i
    rw [hat] at hop
    exact hop
  have hbefore : w.entries = backupsOf index.root := entries_of_accepts h hround hfetched haccepts
  have hentries' : w'.entries = (keptEntries d index.root present file added).take kWebDavIndexMaxEntries := by
    rw [World.entries, World.fetched, hindex, hroot]
    exact backupsOf_withEntries _ _
  have hnames : w'.names = w.names := congrArg (List.map WebDavListedFile.name) hfolder
  have hmono : ∀ b ∈ w.uploads, b ∈ w'.uploads := fun b hb => huploads ▸ hb
  have hreturn : NoReturn w w' := fun _ _ hname => hnames ▸ hname
  have htagsMono : ∀ t ∈ w.tags, t ∈ w'.tags := by
    intro t ht
    rw [htags]
    exact mem_cons_of_mem _ ht
  -- What is kept is written or cut off.
  have hrecorded : ∀ object ∈ keptEntries d index.root present file added, Recorded w' object := by
    intro object hobject
    rw [← take_append_drop kWebDavIndexMaxEntries (keptEntries d index.root present file added), mem_append] at hobject
    rcases hobject with hwritten | hcut
    · left
      rw [hentries']
      exact hwritten
    · right
      refine ⟨(keptEntries d index.root present file added).take kWebDavIndexMaxEntries, ?_⟩
      rw [hcuts]
      exact mem_append_left _ (mem_map.2 ⟨object, hcut, rfl⟩)
  have hupload : ∀ j b, w'.ops j = .uploadPut b → w.ops j = .uploadPut b := by
    intro j b hj
    rw [← hops j ?_]
    · exact hj
    · rintro rfl
      rw [hself] at hj
      cases hj
  refine ⟨?_, ?_, ?_, ?_, ?_, ?_, ?_, ?_, ?_⟩
  · rw [hnames]
    exact h.folder
  · rw [hnames, huploads]
    exact h.folderUploads
  · rw [huploads]
    exact h.distinct
  · intro j k b b' hj hk
    exact h.pending j k b b' (hupload j b hj) (hupload k b' hk)
  · intro root' etag' hnow
    rw [hindex] at hnow
    cases hnow
    refine ⟨?_, hstrong, ⟨?_, ?_⟩, ?_⟩
    · rw [htags]
      exact mem_cons_self
    · rw [hroot, backupsOf_withEntries]
      exact (nodup_keptEntries (fileOf_added htarget)).sublist ((take_sublist _ _).map _)
    · intro object hobject
      rw [hroot, backupsOf_withEntries] at hobject
      rw [huploads]
      exact uploaded_keptEntries htarget hfetched (mem_of_mem_take hobject)
    · rw [hroot, formatOf_withEntries]
  · intro etag' root₁ root₂ h₁ h₂
    rw [htags, mem_cons, Prod.mk.injEq] at h₁ h₂
    rcases h₁ with ⟨rfl, rfl⟩ | h₁ <;> rcases h₂ with ⟨hetag, rfl⟩ | h₂
    · rfl
    · exact (hfresh _ h₂).symm
    · rw [hetag] at h₁
      exact hfresh _ h₁
    · exact h.tags etag' root₁ root₂ h₁ h₂
  · intro j
    by_cases hji : j = i
    · rw [hji, hself]
      trivial
    · rw [hops j hji]
      refine opOk_mono (h.ops j) hmono hreturn htagsMono ?_
      intro b hb
      rw [huploads]
      have hpending := h.ops j
      rw [hb] at hpending
      exact hpending
  · intro b hb hname
    rw [huploads] at hb
    rw [hnames] at hname
    rcases h.recorded b hb hname with (hentry | ⟨written, hcut⟩) | ⟨j, hj⟩
    · left
      rw [hbefore] at hentry
      exact hrecorded _ (mem_keptEntries_of_fetched h htarget hfetched hpresent hb hname hentry)
    · refine .inl (.inr ⟨written, ?_⟩)
      rw [hcuts]
      exact mem_append_right _ hcut
    · by_cases hji : j = i
      · left
        rw [hji, hat] at hj
        exact hrecorded _ (mem_keptEntries.2 (.inl hj))
      · exact .inr ⟨j, (congrArg Op.added (hops j hji)).trans hj⟩
  · intro object written hcut
    rw [hcuts, mem_append] at hcut
    rcases hcut with hnew | hold
    · obtain ⟨cut, hmem, heq⟩ := mem_map.1 hnew
      cases heq
      rw [huploads]
      exact cut_keptEntries htarget hfetched hmem
    · rw [huploads]
      exact h.cut object written hold

/-- The next request of an operation. -/
theorem ok_request (h : Ok d w) {modified : Date} {etag : Text}
    (hmeets : Meets d w (.next i modified etag)) : Ok d (request d w i modified etag) := by
  obtain ⟨hstrong, hfresh, hrounds⟩ := hmeets
  have hself : ∀ op, (w.setOp i op).ops i = op := fun op => Function.update_self _ _ _
  have hothers : ∀ op j, j ≠ i → (w.setOp i op).ops j = w.ops j :=
    fun op j hne => Function.update_of_ne hne _ _
  have hop := h.ops i
  rw [request] at hfresh hrounds ⊢
  cases hat : w.ops i with
  | unborn | done => exact h
  | uploadPut b =>
    exact ok_uploadPut h hat (hself _) (hothers _) rfl rfl rfl rfl rfl
  | deleteRequest file =>
    exact ok_deleteRequest h hat (hself _) (hothers _) rfl rfl rfl rfl rfl
  | fetch file added round =>
    rw [hat] at hop
    obtain ⟨hfetched, hformat⟩ := fetched_fetched h
    simp only [hformat, lt_irrefl, if_false]
    apply ok_setOp h
    · exact ⟨hop.1, hop.2, hfetched⟩
    · intro b _ hadded
      rw [hat] at hadded
      exact hadded
    · intro b j b' hnone
      cases hnone
  | list file added round index =>
    rw [hat] at hop
    apply ok_setOp h
    · exact ⟨hop.1, hop.2.1, hop.2.2, fun _ _ hname => hname⟩
    · intro b _ hadded
      rw [hat] at hadded
      exact hadded
    · intro b j b' hnone
      cases hnone
  | put file added round index present =>
    rw [hat] at hop
    simp only [hat] at hfresh hrounds ⊢
    split
    · next haccepts =>
      rw [if_pos haccepts] at hfresh
      exact ok_put h hat haccepts (hself _) (hothers _) rfl rfl rfl rfl rfl rfl hstrong (hfresh _ rfl)
    · next hrefused =>
      -- The index has changed since it was fetched, and there are rounds left.
      rw [if_neg hrefused, if_pos hop.2.1] at hrounds
      rw [if_pos hop.2.1]
      apply ok_setOp h
      · refine ⟨hop.1, lt_of_le_of_ne hop.2.1 ?_⟩
        intro hlast
        refine hrounds file added ?_
        rw [hself, hlast]
      · intro b _ hadded
        rw [hat] at hadded
        exact hadded
      · intro b j b' hnone
        cases hnone

/-- Every step keeps the invariant. -/
theorem ok_step (h : Ok d w) {e : Event} (hmeets : Meets d w e) : Ok d (step d w e) := by
  cases e with
  | next i modified etag => exact ok_request h hmeets
  | Upload i backup =>
    rw [step]
    cases hat : w.ops i with
    | unborn =>
      apply ok_setOp h
      · exact hmeets.1
      · intro b _ hadded
        rw [hat] at hadded
        cases hadded
      · intro b j b' hb hj
        cases hb
        exact hmeets.2 j b' hj
    | uploadPut | deleteRequest | fetch | list | put | done => exact h
  | Delete i file =>
    rw [step]
    cases hat : w.ops i with
    | unborn =>
      simp only
      split
      · apply ok_setOp h
        · exact hmeets
        · intro b _ hadded
          rw [hat] at hadded
          cases hadded
        · intro b j b' hb
          cases hb
      · exact h
    | uploadPut | deleteRequest | fetch | list | put | done => exact h

end Steps

/-! ## Runs -/

/-- No operation is in flight. -/
def World.Quiet (w : World) : Prop := ∀ i, w.ops i = .unborn ∨ w.ops i = .done

/-- What the index and the list of backups say while no operation is in flight. -/
structure IndexOk (d : Dates) (w : World) : Prop where
  /-- The index names each file once. -/
  once : (w.entries.map fileOf).Nodup
  /-- The entry of every archive in the folder is there as its uploader made it, or was cut off. -/
  own : ∀ b ∈ w.uploads, b.file ∈ w.names → b.entry d ∈ w.entries ∨ ∃ written, (b.entry d, written) ∈ w.cuts
  cut : ∀ object written, (object, written) ∈ w.cuts → CutOk d w.uploads object written
  /-- None is cut off as long as the index takes them all. -/
  whole : w.uploads.length ≤ kWebDavIndexMaxEntries → ∀ b ∈ w.uploads, b.file ∈ w.names → b.entry d ∈ w.entries
  /-- The list has every file of the folder once, newest first and undated ones last. -/
  listedOnce : ((ListEntries d w).map Entry.file).Perm w.names ∧ w.names.Nodup
  listedSorted : (ListEntries d w).Pairwise fun a b => WebDavNewer b.createdAt a.createdAt = false
  /-- With the metadata of its own entry. -/
  listedOwn : ∀ b ∈ w.uploads, b.file ∈ w.names → b.entry d ∈ w.entries → b.described ∈ ListEntries d w

section Quiet

variable {d : Dates} {w : World}

theorem listedEntry_file (objects : List Fields) (file : WebDavListedFile) : (listedEntry d objects file).file = file.name := by
  have hfound : ∀ e ∈ (objects.filterMap (WebDavEntryFromJson d)).find? (fun entry => entry.file == file.name), e.file = file.name := by
    intro e he
    have hsame : (e.file == file.name) = true :=
      find?_some (p := fun entry : Entry => entry.file == file.name) he
    exact beq_iff_eq.1 hsame
  rw [listedEntry]
  cases hentry : (objects.filterMap (WebDavEntryFromJson d)).find? fun entry => entry.file == file.name with
  | none => rfl
  | some entry =>
    have hfile := hfound entry hentry
    dsimp only
    split <;> split <;> exact hfile

/-- A file whose entry is in the index is listed as its uploader described it. -/
theorem listedEntry_own (h : Ok d w) (hb : b ∈ w.uploads)
    (hentry : b.entry d ∈ w.entries) {file : WebDavListedFile} (hfile : file.name = b.file) : listedEntry d w.entries file = b.described := by
  have hmem : b.described ∈ w.entries.filterMap (WebDavEntryFromJson d) := mem_filterMap.2 ⟨_, hentry, entryFromJson_entry d b⟩
  have hentries : ∀ object ∈ w.entries, ∃ b' ∈ w.uploads, object = b'.entry d := by
    rcases (fetched_fetched h).1 with ⟨-, hroot, -⟩ | ⟨-, -, -, hentries⟩
    · intro object hobject
      rw [World.entries, hroot] at hobject
      cases hobject
    · exact hentries.uploaded
  have hfind : (w.entries.filterMap (WebDavEntryFromJson d)).find? (fun entry => entry.file == file.name) = some b.described := by
    cases hfound : (w.entries.filterMap (WebDavEntryFromJson d)).find? (fun entry => entry.file == file.name) with
    | none =>
      have hnone := find?_eq_none.1 hfound _ hmem
      exact absurd (beq_iff_eq.2 hfile.symm) hnone
    | some entry =>
      obtain ⟨object, hobject, hread⟩ := mem_filterMap.1 (mem_of_find?_eq_some hfound)
      obtain ⟨b', hb', rfl⟩ := hentries object hobject
      rw [entryFromJson_entry] at hread
      have hname : b'.file = b.file := by
        have hsame : (entry.file == file.name) = true :=
          find?_some (p := fun entry : Entry => entry.file == file.name) hfound
        rw [← Option.some.inj hread] at hsame
        exact (beq_iff_eq.1 hsame).trans hfile
      rw [h.distinct b' hb' b hb hname] at hread
      exact hread.symm
  rw [listedEntry, hfind]
  have hsize : ¬(b.described.size < 0) := not_lt.2 (Int.natCast_nonneg b.size)
  simp only [if_neg hsize]
  rfl

/-- A cut needs more uploads than the index takes. -/
theorem no_cut {written : List Fields} {uploads : List Backup} (h : CutOk d uploads object written) : kWebDavIndexMaxEntries < uploads.length := by
  have hsub : (written ++ [object]).map fileOf ⊆ uploads.map Backup.file := by
    intro name hname
    obtain ⟨kept, hkept, rfl⟩ := mem_map.1 hname
    obtain ⟨b, hb, rfl⟩ := h.uploaded kept hkept
    exact mem_map.2 ⟨b, hb, (fileOf_entry d b).symm⟩
  have hle := (List.Nodup.subperm h.once hsub).length_le
  rw [length_map, length_map, length_append, h.full, length_singleton] at hle
  exact hle

theorem indexOk_of_ok (h : Ok d w) (hquiet : w.Quiet) : IndexOk d w := by
  have hown : ∀ b ∈ w.uploads, b.file ∈ w.names → b.entry d ∈ w.entries ∨ ∃ written, (b.entry d, written) ∈ w.cuts := by
    intro b hb hname
    rcases h.recorded b hb hname with hrecorded | ⟨i, hi⟩
    · exact hrecorded
    · rcases hquiet i with hat | hat
      all_goals
        rw [hat] at hi
        cases hi
  refine ⟨?_, hown, h.cut, ?_, ⟨?_, h.folder⟩, pairwise_newestFirst _ _, ?_⟩
  · rcases (fetched_fetched h).1 with ⟨-, hroot, -⟩ | ⟨-, -, -, hentries⟩
    · rw [World.entries, hroot]
      exact nodup_nil
    · exact hentries.once
  · intro hfits b hb hname
    refine (hown b hb hname).resolve_right ?_
    rintro ⟨written, hcut⟩
    exact absurd (no_cut (h.cut _ _ hcut)) (not_lt.2 hfits)
  · refine ((mergeSort_perm _ _).map Entry.file).trans (List.Perm.of_eq ?_)
    rw [map_map]
    exact map_congr_left fun file _ => listedEntry_file _ file
  · intro b hb hname hentry
    obtain ⟨file, hfile, hsame⟩ := mem_map.1 hname
    rw [ListEntries, mem_mergeSort]
    exact mem_map.2 ⟨file, hfile, listedEntry_own h hb hentry hsame⟩

end Quiet

end Throne.Engine.WebDavBackup
