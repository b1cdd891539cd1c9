import RefluxDb.Library.Machine
import RefluxDb.Write.Retention
import RefluxDb.Write.SnapshotCheckpoints

/-! The books of the view: each table lists a path once, and the counters are the number of listed
files and of their rows.

Folding manifests and removing files keep the books from every state. The other operations keep
them on a condition: adding a single file counts it even when it is there, a checkpoint is taken
as it is, and the removal of marked or expired files counts a path once however many tables list
it. -/

namespace RefluxDb.Write

open List RefluxDb.Library
open RefluxDb.Catalog (InnerCatalog)

/-- No table lists a path twice, and the counters are right. -/
structure Inner.Booked (inner : Inner) : Prop where
  nodup : inner.files.paths.Nodup
  counted : inner.Counted

section Folding

variable {key : TableKey} {state : FoldState} {file : ParquetFile} {source : Option String}
variable {inner : Inner} {files : Files} {entry : TableKey × ParquetFile}

theorem Files.nodup_paths_append_singleton (hnodup : files.paths.Nodup)
    (hnew : (entry.1, entry.2.path) ∉ files.paths) : (Files.paths (files ++ [entry])).Nodup := by
  rw [Files.paths, map_append]
  refine hnodup.append (by simp) ?_
  intro path hpath hself
  obtain rfl : path = (entry.1, entry.2.path) := by simpa [Files.paths] using hself
  exact hnew hpath

theorem nodup_addFile (hnodup : state.files.paths.Nodup) :
    (addFile key state file).files.paths.Nodup := by
  unfold addFile
  split
  · exact hnodup
  · split
    · exact hnodup
    · rename_i hnew
      exact Files.nodup_paths_append_singleton hnodup fun hmem => hnew (hasPath_iff.mpr hmem)

variable {snapshot : PersistedSnapshot}

theorem nodup_addPersistedSnapshot (hnodup : inner.files.paths.Nodup) :
    (inner.addPersistedSnapshot snapshot source).files.paths.Nodup := by
  have hadded : (snapshot.databases.tables.foldl addTable
      ⟨inner.files, inner.removedTombstones, {}⟩).files.paths.Nodup := by
    refine foldl_keeps (fun state : FoldState => state.files.paths.Nodup)
      (fun state table _ hstate => ?_) hnodup
    exact foldl_keeps (fun state : FoldState => state.files.paths.Nodup)
      (fun _ _ _ hnext => nodup_addFile hnext) hstate
  exact foldl_keeps (fun state : FoldState => state.files.paths.Nodup)
    (fun _ _ _ hstate => hstate.sublist (filter_sublist.map _)) hadded

theorem Inner.Booked.addPersistedSnapshot (hbooked : inner.Booked) :
    (inner.addPersistedSnapshot snapshot source).Booked :=
  ⟨nodup_addPersistedSnapshot hbooked.nodup, hbooked.counted.addPersistedSnapshot⟩

theorem Inner.Booked.foldl_addPersistedSnapshotFiles (hbooked : inner.Booked)
    (snapshots : List PersistedSnapshot) :
    (snapshots.foldl addPersistedSnapshotFiles inner).Booked :=
  foldl_keeps Booked (fun _ _ _ hnext => hnext.addPersistedSnapshot) hbooked

theorem Inner.booked_empty : ({} : Inner).Booked where
  nodup := nodup_nil
  counted := ⟨rfl, rfl⟩

/-- A single file keeps the books when its table does not list its path. -/
theorem Inner.Booked.addPersistedFile (hbooked : inner.Booked)
    (hnew : (key, file.path) ∉ inner.files.paths) : (inner.addPersistedFile key file).Booked := by
  have habsent : (key, file) ∉ inner.files := by
    intro hmem
    exact hnew (mem_map.mpr ⟨(key, file), hmem, rfl⟩)
  simp only [Inner.addPersistedFile, if_neg habsent]
  constructor
  · exact Files.nodup_paths_append_singleton hbooked.nodup hnew
  · constructor
    · simp [hbooked.counted.count]
    · simp [hbooked.counted.rows, Files.rowCount]

variable {test : TableKey × ParquetFile → Bool}

/-- Dropping the files a test picks, with the counters that go with it. -/
theorem Inner.Booked.drop {next : Inner}
    (hbooked : inner.Booked) (hfiles : next.files = inner.files.filter fun entry => !test entry)
    (hcount : next.parquetFilesCount =
      inner.parquetFilesCount - (inner.files.filter test).length)
    (hrows : next.parquetFilesRowCount =
      inner.parquetFilesRowCount - Files.rowCount (inner.files.filter test)) :
    next.Booked := by
  constructor
  · rw [hfiles]
    exact hbooked.nodup.sublist (filter_sublist.map _)
  · constructor
    · have hsplit := length_eq_length_filter_add (l := inner.files) test
      rw [hcount, hfiles, hbooked.counted.count]
      omega
    · have hsplit := sum_filter_add_sum_filter_not (fun entry => entry.2.rowCount) test inner.files
      rw [hrows, hfiles, hbooked.counted.rows]
      simp only [Files.rowCount] at hsplit ⊢
      omega

theorem Inner.Booked.removePersistedFiles (hbooked : inner.Booked)
    (filesToRemove : List ParquetFile) : (inner.removePersistedFiles key filesToRemove).Booked :=
  hbooked.drop rfl rfl rfl

end Folding

section Checkpoints

variable {checkpoint other : PersistedSnapshotCheckpoint} {files : Files}

theorem Files.rowCount_append (files more : Files) :
    Files.rowCount (files ++ more) = files.rowCount + more.rowCount := by
  simp [Files.rowCount]

theorem rowCount_eraseP {found : TableKey × ParquetFile}
    (hfound : files.find? test = some found) :
    Files.rowCount (files.eraseP test) + found.2.rowCount = files.rowCount := by
  induction files with
  | nil => cases hfound
  | cons first rest ih =>
    by_cases htest : test first = true
    · rw [find?_cons_of_pos htest] at hfound
      obtain rfl := Option.some.inj hfound
      rw [eraseP_cons_of_pos htest]
      simp only [Files.rowCount, map_cons, sum_cons]
      omega
    · rw [find?_cons_of_neg htest] at hfound
      have hrest := ih hfound
      rw [eraseP_cons_of_neg htest]
      simp only [Files.rowCount, map_cons, sum_cons] at hrest ⊢
      omega

namespace PersistedSnapshotCheckpoint

/-- The row count of the checkpoint is that of its files. -/
def Totalled (checkpoint : PersistedSnapshotCheckpoint) : Prop :=
  checkpoint.rowCount = checkpoint.databases.rowCount
deriving Decidable

theorem Totalled.foldl_addFile (htotalled : checkpoint.Totalled) (files : Files) :
    (files.foldl addFile checkpoint).Totalled := by
  refine foldl_keeps Totalled (fun state entry _ hstate => ?_) htotalled
  simp only [Totalled, addFile] at hstate ⊢
  rw [Files.rowCount_append, hstate]
  rfl

theorem Totalled.removeFile (htotalled : checkpoint.Totalled) (key : TableKey) (id : Nat) :
    (checkpoint.removeFile key id).Totalled := by
  unfold PersistedSnapshotCheckpoint.removeFile
  split
  · exact htotalled
  · rename_i found hfound
    have hrows := rowCount_eraseP hfound
    simp only [Totalled] at htotalled ⊢
    omega

theorem sublist_foldl_removeFile (pending : Files) (checkpoint : PersistedSnapshotCheckpoint) :
    (pending.foldl (fun checkpoint entry => checkpoint.removeFile entry.1 entry.2.id)
      checkpoint).databases.Sublist checkpoint.databases := by
  induction pending generalizing checkpoint with
  | nil => exact List.Sublist.refl _
  | cons entry rest ih =>
    refine (ih _).trans ?_
    rw [databases_removeFile]
    exact eraseP_sublist

theorem Totalled.merge (htotalled : checkpoint.Totalled) : (checkpoint.merge other).Totalled :=
  foldl_keeps Totalled (fun _ entry _ hstate => hstate.removeFile entry.1 entry.2.id)
    (htotalled.foldl_addFile other.databases)

theorem sublist_merge (checkpoint other : PersistedSnapshotCheckpoint) :
    (checkpoint.merge other).databases.Sublist (checkpoint.databases ++ other.databases) := by
  have hremoved := sublist_foldl_removeFile other.pendingRemovedFiles
    (other.databases.foldl addFile checkpoint)
  rw [databases_foldl_addFile] at hremoved
  exact hremoved

theorem foldl_merge (rest : List PersistedSnapshotCheckpoint)
    (checkpoint : PersistedSnapshotCheckpoint) (htotalled : checkpoint.Totalled) :
    (rest.foldl merge checkpoint).Totalled ∧
      (rest.foldl merge checkpoint).databases.Sublist
        (checkpoint.databases ++ rest.flatMap (·.databases)) := by
  induction rest generalizing checkpoint with
  | nil => simp [htotalled]
  | cons other rest ih =>
    obtain ⟨hmerged, hsublist⟩ := ih (checkpoint.merge other) htotalled.merge
    refine ⟨hmerged, hsublist.trans ?_⟩
    rw [flatMap_cons, ← append_assoc]
    exact (sublist_merge checkpoint other).append_right _

end PersistedSnapshotCheckpoint

/-- Checkpoints whose row counts are right and that share no path of a table make a view with
right books. -/
theorem Inner.booked_newFromCheckpointsAndSnapshots (checkpoints : List PersistedSnapshotCheckpoint)
    (hnodup : (Files.paths (checkpoints.flatMap (·.databases))).Nodup)
    (htotalled : ∀ checkpoint ∈ checkpoints, checkpoint.Totalled)
    (additionalSnapshots : List PersistedSnapshot) :
    (newFromCheckpointsAndSnapshots checkpoints additionalSnapshots).Booked := by
  apply Booked.foldl_addPersistedSnapshotFiles
  have hperm := perm_insertionSort
    (fun a b : PersistedSnapshotCheckpoint => a.yearMonth ≤ b.yearMonth) checkpoints
  split
  · exact booked_empty
  · rename_i first rest hsorted
    rw [hsorted] at hperm
    have hall : (Files.paths ((first :: rest).flatMap (·.databases))).Nodup := by
      have hpaths := (hperm.flatMap_right (·.databases)).map fun entry => (entry.1, entry.2.path)
      exact hpaths.nodup_iff.mpr hnodup
    obtain ⟨hmerged, hsublist⟩ := PersistedSnapshotCheckpoint.foldl_merge rest first
      (htotalled first (hperm.subset (by simp)))
    exact ⟨hall.sublist (hsublist.map _), rfl, hmerged⟩

end Checkpoints

section Removal

variable {catalog : InnerCatalog} {now : Int} {inner : MarkedInner} {queue removed : Files}
variable {entry : TableKey × ParquetFile}

/-- What a selection by key picks, when the keys are unique, is the selection. -/
theorem perm_filter_key {α β : Type*} [DecidableEq β] {key : α → β} {items picked : List α}
    (hitems : (items.map key).Nodup) (hpicked : (picked.map key).Nodup)
    (hsubset : ∀ item ∈ picked, item ∈ items) :
    (items.filter fun item => decide (key item ∈ picked.map key)).Perm picked := by
  refine (perm_ext_iff_of_nodup (hitems.of_map.filter _) hpicked.of_map).mpr ?_
  intro item
  rw [mem_filter, decide_eq_true_eq]
  constructor
  · rintro ⟨hitem, hkey⟩
    obtain ⟨other, hother, hsame⟩ := mem_map.mp hkey
    obtain rfl := inj_on_of_nodup_map hitems (hsubset other hother) hitem hsame
    exact hother
  · intro hitem
    exact ⟨hsubset item hitem, mem_map_of_mem hitem⟩

theorem nodup_foldl_queueForRemoval (hnodup : (removed.map (·.2.path)).Nodup) :
    ((queue.foldl queueForRemoval removed).map (·.2.path)).Nodup := by
  refine foldl_keeps (fun removed : Files => (removed.map (·.2.path)).Nodup)
    (fun state entry _ hstate => ?_) hnodup
  unfold queueForRemoval
  split
  · exact hstate
  · rename_i hnew
    rw [map_append]
    exact hstate.append (by simp) (by simpa using hnew)

theorem mem_of_mem_foldl_queueForRemoval (hmem : entry ∈ queue.foldl queueForRemoval removed) :
    entry ∈ removed ∨ entry ∈ queue := by
  induction queue generalizing removed with
  | nil => exact .inl hmem
  | cons first rest ih =>
    rcases ih hmem with hremoved | hrest
    · unfold queueForRemoval at hremoved
      split at hremoved
      · exact .inl hremoved
      · rcases mem_append.mp hremoved with hold | hself
        · exact .inl hold
        · exact .inr (by simp_all)
    · exact .inr (mem_cons_of_mem _ hrest)

theorem nodup_removedFiles (inner : MarkedInner) (catalog : InnerCatalog) (now : Int) :
    ((inner.removedFiles catalog now).map (·.2.path)).Nodup :=
  nodup_foldl_queueForRemoval nodup_nil

theorem mem_files_of_mem_removedFiles (hmem : entry ∈ inner.removedFiles catalog now) :
    entry ∈ inner.files := by
  rcases mem_of_mem_foldl_queueForRemoval hmem with hnone | hqueued
  · cases hnone
  · rcases mem_append.mp hqueued with hdeleted | hexpired
    · exact (marked_of_mem_deletedFiles hdeleted).1
    · exact (mem_expiredFiles.mp hexpired).1

/-- No path is listed in two tables. -/
def Files.OneTable (files : Files) : Prop :=
  ∀ entry ∈ files, ∀ other ∈ files, entry.2.path = other.2.path → entry.1 = other.1
deriving Decidable

theorem Files.OneTable.nodup {files : Files} (hone : files.OneTable) (hnodup : files.paths.Nodup) :
    (files.map (·.2.path)).Nodup := by
  refine hnodup.of_map.map_on fun entry hentry other hother hpath => ?_
  exact inj_on_of_nodup_map hnodup hentry hother
    (Prod.ext (hone entry hentry other hother hpath) hpath)

/-- A removal keeps the books when it drops just the files it has queued. -/
theorem Inner.Booked.dropQueued (hbooked : inner.Booked)
    (hperm : (inner.files.filter fun entry =>
      decide (entry.2.path ∈ queue.map (·.2.path))).Perm queue) :
    (inner.dropQueued queue).Booked := by
  apply hbooked.drop
  · change _ = inner.files.filter fun entry => !decide (entry.2.path ∈ queue.map (·.2.path))
    simp [MarkedInner.dropQueued]
  · rw [hperm.length_eq]
    rfl
  · rw [Files.rowCount, (hperm.map _).sum_nat]
    rfl

theorem Inner.Booked.removeFilesForDeletion (hbooked : inner.Booked)
    (hone : inner.files.OneTable) :
    (inner.removeFilesForDeletion catalog now).2.Booked := by
  -- where paths are in one table each, the files it drops are the files it returns
  have hperm := perm_filter_key (hone.nodup hbooked.nodup) (nodup_removedFiles inner catalog now)
    fun _ => mem_files_of_mem_removedFiles
  simp only [MarkedInner.removeFilesForDeletion]
  split
  · exact hbooked
  · exact hbooked.dropQueued hperm

end Removal

/-- What makes or changes the view. -/
inductive ViewAction where
  | newFromPersistedSnapshots (snapshots : List PersistedSnapshot)
  | newFromCheckpointsAndSnapshots (checkpoints : List PersistedSnapshotCheckpoint)
      (additionalSnapshots : List PersistedSnapshot)
  | addPersistedSnapshotFiles (snapshot : PersistedSnapshot)
  | addPersistedCompactionFiles (snapshot : PersistedSnapshot) (compactionId : String)
  | addPersistedFile (key : TableKey) (file : ParquetFile)
  | removePersistedFiles (key : TableKey) (filesToRemove : List ParquetFile)
  | deleteDatabase (dbId : Nat)
  | deleteTable (key : TableKey)
  | removeFilesForDeletion (catalog : InnerCatalog) (now : Int)

namespace MarkedInner

def act (inner : MarkedInner) : ViewAction → MarkedInner
  | .newFromPersistedSnapshots snapshots =>
    { toInner := .newFromPersistedSnapshots snapshots }
  | .newFromCheckpointsAndSnapshots checkpoints additionalSnapshots =>
    { toInner := .newFromCheckpointsAndSnapshots checkpoints additionalSnapshots }
  | .addPersistedSnapshotFiles snapshot =>
    { inner with toInner := inner.addPersistedSnapshotFiles snapshot }
  | .addPersistedCompactionFiles snapshot compactionId =>
    { inner with toInner := inner.addPersistedCompactionFiles snapshot compactionId }
  | .addPersistedFile key file => { inner with toInner := inner.addPersistedFile key file }
  | .removePersistedFiles key filesToRemove =>
    { inner with toInner := inner.removePersistedFiles key filesToRemove }
  | .deleteDatabase dbId => inner.deleteDatabase dbId
  | .deleteTable key => inner.deleteTable key
  | .removeFilesForDeletion catalog now => (inner.removeFilesForDeletion catalog now).2

def viewMachine : Machine MarkedInner ViewAction where
  initial inner := inner = {}
  step inner action := some (inner.act action)

/-- The steps that keep the books: a single file is new to its table, checkpoints have the row
counts of their files and share no path of a table, and files are removed for deletion while no
path is in two tables. -/
def KeepsBooks (inner : MarkedInner) : ViewAction → Prop
  | .newFromCheckpointsAndSnapshots checkpoints _ =>
    (Files.paths (checkpoints.flatMap (·.databases))).Nodup ∧
      ∀ checkpoint ∈ checkpoints, checkpoint.Totalled
  | .addPersistedFile key file => (key, file.path) ∉ inner.files.paths
  | .removeFilesForDeletion _ _ => inner.files.OneTable
  | _ => True

instance (inner : MarkedInner) : (action : ViewAction) → Decidable (inner.KeepsBooks action)
  | .newFromCheckpointsAndSnapshots .. => inferInstanceAs (Decidable (_ ∧ _))
  | .addPersistedFile .. => inferInstanceAs (Decidable (_ ∉ inner.files.paths))
  | .removeFilesForDeletion .. => inferInstanceAs (Decidable inner.files.OneTable)
  | .newFromPersistedSnapshots _ | .addPersistedSnapshotFiles _ | .addPersistedCompactionFiles ..
  | .removePersistedFiles .. | .deleteDatabase _ | .deleteTable _ => .isTrue trivial

theorem toInner_deleteTable (inner : MarkedInner) (key : TableKey) :
    (inner.deleteTable key).toInner = inner.toInner := by
  unfold deleteTable
  split <;> rfl

theorem booked_act {inner : MarkedInner} {action : ViewAction} (hbooked : inner.Booked)
    (hkeeps : inner.KeepsBooks action) : (inner.act action).Booked := by
  cases action with
  | newFromPersistedSnapshots snapshots =>
    exact Inner.booked_empty.foldl_addPersistedSnapshotFiles snapshots
  | newFromCheckpointsAndSnapshots checkpoints additionalSnapshots =>
    exact Inner.booked_newFromCheckpointsAndSnapshots checkpoints hkeeps.1 hkeeps.2
      additionalSnapshots
  | addPersistedSnapshotFiles snapshot => exact hbooked.addPersistedSnapshot
  | addPersistedCompactionFiles snapshot compactionId => exact hbooked.addPersistedSnapshot
  | addPersistedFile key file => exact hbooked.addPersistedFile hkeeps
  | removePersistedFiles key filesToRemove => exact hbooked.removePersistedFiles filesToRemove
  | deleteDatabase dbId => exact hbooked
  | deleteTable key =>
    change ((inner.deleteTable key).toInner).Booked
    rw [toInner_deleteTable]
    exact hbooked
  | removeFilesForDeletion catalog now => exact hbooked.removeFilesForDeletion hkeeps

/-- In every view reached by steps that keep the books, the books are right. -/
theorem booked_of_keepsBooks (inner : MarkedInner)
    (hreachable : viewMachine.Reachable KeepsBooks inner) : inner.Booked := by
  induction hreachable with
  | initial hinitial =>
    obtain rfl := hinitial
    exact Inner.booked_empty
  | step _ hkeeps hstep ih =>
    obtain rfl := Option.some.inj hstep
    exact booked_act ih hkeeps

def oneRowFile (path : String) : ParquetFile where
  id := 1
  path := path
  sizeBytes := 100
  rowCount := 1
  chunkTime := 0
  minTime := 0
  maxTime := 0

theorem emptyView_reachable {allowed : MarkedInner → ViewAction → Prop} :
    viewMachine.Reachable allowed ({} : MarkedInner) := .initial rfl

/-- A file that is added and whose table is then removed. -/
theorem booked_of_keepsBooks_removed :
    ∃ inner, viewMachine.Reachable KeepsBooks inner ∧ inner.files = [] ∧ inner.Booked := by
  refine emptyView_reachable.exists_of_exec_and
    [.addPersistedFile ⟨1, 1⟩ (oneRowFile "a.parquet"),
      .addPersistedFile ⟨1, 1⟩ (oneRowFile "b.parquet"), .deleteTable ⟨1, 1⟩,
      .removeFilesForDeletion {} 0]
    _ (by decide) (by decide) ?_
  exact booked_of_keepsBooks

theorem file_added_twice_counted_twice :
    ∃ inner, viewMachine.Reachable Machine.Unrestricted inner ∧ ¬inner.Booked := by
  obtain ⟨inner, hreachable, hlisted, hcounted⟩ := emptyView_reachable.exists_of_run
    [.addPersistedFile ⟨1, 1⟩ (oneRowFile "a.parquet"),
      .addPersistedFile ⟨1, 1⟩ (oneRowFile "a.parquet")]
    (fun inner => inner.files.length = 1 ∧ inner.parquetFilesCount = 2) (by decide)
  refine ⟨inner, hreachable, fun hbooked => ?_⟩
  have hcount := hbooked.counted.count
  omega

end MarkedInner

end RefluxDb.Write
