import Mathlib.Algebra.BigOperators.Group.List.Basic
import Mathlib.Data.Finset.Max
import RefluxDb.Library.Lists
import RefluxDb.Write.TableIndex

/-! Whether the metadata of a table index are those of its files.

Metadata are recomputed from the files by `prune_removed`, and so at the end of every update that
has loaded a snapshot; `from_snapshots` and `merge` count every file they are given, and a purge
keeps the metadata as they were. The recomputed bounds start at the largest time and at zero. -/

namespace RefluxDb.Write

open List RefluxDb.Library

section Definitions

def IndexMetadata.ofFiles (files : List ParquetFile) : IndexMetadata :=
  files.foldl mergeFromParquetFile empty

/-- The metadata are the sums over the files, and their bounds. -/
structure CoreTableIndex.Exact (index : CoreTableIndex) : Prop where
  rowCount : index.metadata.rowCount =
    asI64 (index.files.items.map fun file => (file.rowCount : Int)).sum
  parquetSizeBytes : index.metadata.parquetSizeBytes =
    asI64 (index.files.items.map fun file => (file.sizeBytes : Int)).sum
  minTime : index.files.items ≠ [] →
    IsLeast {time | ∃ file ∈ index.files, file.minTime = time} index.metadata.minTime
  maxTime : index.files.items ≠ [] →
    IsGreatest {time | ∃ file ∈ index.files, file.maxTime = time} index.metadata.maxTime

inductive IndexOperation where
  | fromSnapshots (id : TableIndexId) (snapshots : List TableIndexSnapshot)
  | merge (index other : CoreTableIndex)
  | pruneRemoved (index : CoreTableIndex) (removed : List Nat)
  | updateFromObjectStore (index : CoreTableIndex) (answers : List (Nat × SnapshotGet))
  | purgeExpired (index : CoreTableIndex) (cutoffTimeNs : Int)

namespace IndexOperation

def inputs : IndexOperation → List CoreTableIndex
  | .fromSnapshots _ _ => []
  | .merge index other => [index, other]
  | .pruneRemoved index _ => [index]
  | .updateFromObjectStore index _ => [index]
  | .purgeExpired index _ => [index]

def snapshots : IndexOperation → List TableIndexSnapshot
  | .fromSnapshots _ snapshots => snapshots
  | .updateFromObjectStore _ answers => foundIn answers
  | .merge _ _ | .pruneRemoved _ _ | .purgeExpired _ _ => []

/-- The index that the operation makes or leaves. -/
def run : IndexOperation → Option CoreTableIndex
  | .fromSnapshots id snapshots =>
    match CoreTableIndex.fromSnapshots id snapshots with
    | .ok (index, _) => some index
    | .error _ => none
  | .merge index other =>
    match index.merge other with
    | .ok merged => some merged
    | .error _ => none
  | .pruneRemoved index removed => some (index.pruneRemoved removed)
  | .updateFromObjectStore index answers => some (index.updateFromObjectStore answers).2
  | .purgeExpired index cutoffTimeNs => some (index.purgeExpired cutoffTimeNs)

end IndexOperation

/-- The indexes that can be made, from new ones and snapshots whose files have times. -/
inductive Made (allowed : IndexOperation → Prop) : CoreTableIndex → Prop
  | new (id : TableIndexId) : Made allowed { id := id }
  | operation {operation : IndexOperation} {index : CoreTableIndex}
      (hinputs : ∀ input ∈ operation.inputs, Made allowed input)
      (htimes : ∀ snapshot ∈ operation.snapshots, ∀ file ∈ snapshot.files,
        IsTimestamp file.minTime ∧ IsTimestamp file.maxTime)
      (hallowed : allowed operation) (hrun : operation.run = some index) : Made allowed index

/-- Not all of the files end before the epoch. -/
def SomeAfterEpoch (files : List ParquetFile) : Prop :=
  files = [] ∨ ∃ file ∈ files, 0 ≤ file.maxTime
deriving Decidable

/-- No file is counted twice, none is purged, and of the files of the result not all end before
the epoch. -/
def CountsRight : IndexOperation → Prop
  | .fromSnapshots _ snapshots =>
    ((CoreTableIndex.addedBy snapshots).map (·.id)).Nodup ∧
      SomeAfterEpoch (CoreTableIndex.addedBy snapshots)
  | .merge index other =>
    ∀ file ∈ index.files.items, ∀ new ∈ other.files.items, file.id ≠ new.id
  | .pruneRemoved index removed =>
    SomeAfterEpoch (index.files.items.filter fun file => file.id ∉ removed)
  | .updateFromObjectStore index answers =>
    (∀ file ∈ index.remaining (foundIn answers), ∀ new ∈ index.remaining (foundIn answers),
      file.id = new.id → file = new) ∧ SomeAfterEpoch (index.remaining (foundIn answers))
  | .purgeExpired index cutoffTimeNs => ∀ file ∈ index.files.items, cutoffTimeNs ≤ file.maxTime

instance : (operation : IndexOperation) → Decidable (CountsRight operation)
  | .fromSnapshots _ _ => inferInstanceAs (Decidable (_ ∧ _))
  | .merge index other => inferInstanceAs (Decidable
      (∀ file ∈ index.files.items, ∀ new ∈ other.files.items, file.id ≠ new.id))
  | .pruneRemoved _ _ => inferInstanceAs (Decidable (SomeAfterEpoch _))
  | .updateFromObjectStore _ _ => inferInstanceAs (Decidable (_ ∧ _))
  | .purgeExpired index cutoffTimeNs => inferInstanceAs (Decidable
      (∀ file ∈ index.files.items, cutoffTimeNs ≤ file.maxTime))

end Definitions

section Counting

variable {files more : List ParquetFile}

theorem asI64_asI64_add (a b : Int) : asI64 (asI64 a + b) = asI64 (a + b) :=
  Int.bmod_add_bmod

theorem asI64_add_asI64 (a b : Int) : asI64 (a + asI64 b) = asI64 (a + b) :=
  Int.add_bmod_bmod

namespace IndexMetadata

theorem ofFiles_concat (files : List ParquetFile) (file : ParquetFile) :
    ofFiles (files ++ [file]) = (ofFiles files).mergeFromParquetFile file := by
  simp [ofFiles]

theorem mergeFromParquetFile_comm (metadata : IndexMetadata) (file other : ParquetFile) :
    (metadata.mergeFromParquetFile file).mergeFromParquetFile other =
      (metadata.mergeFromParquetFile other).mergeFromParquetFile file := by
  simp only [mergeFromParquetFile, asI64_asI64_add, asI64_add_asI64, mk.injEq]
  refine ⟨?_, ?_, min_right_comm _ _ _, max_right_comm _ _ _⟩
  · rw [add_right_comm]
  · rw [add_right_comm]

theorem ofFiles_perm (h : files.Perm more) : ofFiles files = ofFiles more :=
  h.foldl_eq' (fun file _ other _ metadata => mergeFromParquetFile_comm metadata file other) empty

theorem counts_ofFiles (files : List ParquetFile) :
    (ofFiles files).rowCount = asI64 (files.map fun file => (file.rowCount : Int)).sum ∧
      (ofFiles files).parquetSizeBytes =
        asI64 (files.map fun file => (file.sizeBytes : Int)).sum := by
  induction files using List.reverseRecOn with
  | nil => exact ⟨rfl, rfl⟩
  | append_singleton files file ih =>
    rw [ofFiles_concat]
    simp only [mergeFromParquetFile, ih, asI64_asI64_add, asI64_add_asI64, map_append,
      map_cons, map_nil, sum_append, sum_singleton, and_self]

theorem times_concat (time : ParquetFile → Int) (files : List ParquetFile) (file : ParquetFile) :
    {t | ∃ other ∈ files ++ [file], time other = t} =
      insert (time file) {t | ∃ other ∈ files, time other = t} := by
  refine Set.ext fun t => ⟨?_, ?_⟩
  · rintro ⟨other, hother, rfl⟩
    rcases mem_concat.mp hother with hold | hlast
    · exact .inr ⟨other, hold, rfl⟩
    · exact .inl (congrArg time hlast)
  · rintro (rfl | ⟨other, hother, rfl⟩)
    · exact ⟨file, by simp, rfl⟩
    · exact ⟨other, mem_append_left _ hother, rfl⟩

/-- The recomputed start is the least of the largest time and the files' times, and the end the
greatest of zero and theirs. -/
theorem times_ofFiles (files : List ParquetFile) :
    IsLeast (insert (2 ^ 63 - 1) {time | ∃ file ∈ files, file.minTime = time})
        (ofFiles files).minTime ∧
      IsGreatest (insert 0 {time | ∃ file ∈ files, file.maxTime = time})
        (ofFiles files).maxTime := by
  induction files using List.reverseRecOn with
  | nil => simp [ofFiles, empty, IsLeast, lowerBounds, IsGreatest, upperBounds]
  | append_singleton files file ih =>
    rw [ofFiles_concat, mergeFromParquetFile, min_comm, max_comm, times_concat, times_concat,
      Set.insert_comm, Set.insert_comm 0]
    exact ⟨ih.1.insert file.minTime, ih.2.insert file.maxTime⟩

theorem merge_mergeFromParquetFile (metadata other : IndexMetadata) (file : ParquetFile) :
    metadata.merge (other.mergeFromParquetFile file) =
      (metadata.merge other).mergeFromParquetFile file := by
  simp only [merge, mergeFromParquetFile, asI64_asI64_add, asI64_add_asI64, add_assoc,
    min_assoc, max_assoc]

theorem asI64_idem (value : Int) : asI64 (asI64 value) = asI64 value := by
  simpa using asI64_asI64_add value 0

/-- Nothing is added by empty metadata to metadata that were counted. -/
theorem merge_empty_ofFiles (files : List ParquetFile) :
    (ofFiles files).merge empty = ofFiles files := by
  have hrows : asI64 (ofFiles files).rowCount = (ofFiles files).rowCount := by
    rw [(counts_ofFiles files).1, asI64_idem]
  have hbytes : asI64 (ofFiles files).parquetSizeBytes = (ofFiles files).parquetSizeBytes := by
    rw [(counts_ofFiles files).2, asI64_idem]
  have hmin : (ofFiles files).minTime ≤ 2 ^ 63 - 1 := (times_ofFiles files).1.2 (Set.mem_insert _ _)
  have hmax : 0 ≤ (ofFiles files).maxTime := (times_ofFiles files).2.2 (Set.mem_insert _ _)
  simp only [merge, empty, add_zero, hrows, hbytes, min_eq_left hmin, max_eq_left hmax]

theorem ofFiles_append (files more : List ParquetFile) :
    ofFiles (files ++ more) = (ofFiles files).merge (ofFiles more) := by
  induction more using List.reverseRecOn with
  | nil =>
    rw [append_nil]
    exact (merge_empty_ofFiles files).symm
  | append_singleton more file ih =>
    rw [← append_assoc, ofFiles_concat, ofFiles_concat, merge_mergeFromParquetFile, ih]

end IndexMetadata

end Counting

section Soundness

namespace CoreTableIndex

variable {index other merged : CoreTableIndex}

/-- The metadata are those that would be recomputed, the files have times, and not all of them end
before the epoch. -/
structure Sound (index : CoreTableIndex) : Prop where
  recomputed : index.metadata = .ofFiles index.files.items
  times : ∀ file ∈ index.files.items, IsTimestamp file.minTime ∧ IsTimestamp file.maxTime
  someAfterEpoch : SomeAfterEpoch index.files.items

theorem Sound.exact (h : index.Sound) : index.Exact where
  rowCount := h.recomputed ▸ (IndexMetadata.counts_ofFiles _).1
  parquetSizeBytes := h.recomputed ▸ (IndexMetadata.counts_ofFiles _).2
  minTime := by
    intro hnonempty
    obtain ⟨hmem, hleast⟩ := (IndexMetadata.times_ofFiles index.files.items).1
    rw [h.recomputed]
    refine ⟨?_, fun time htime => hleast (Set.mem_insert_of_mem _ htime)⟩
    rcases hmem with hstart | hfile
    · -- the start value is the time of every file then, as no time is above it
      obtain ⟨file, hfile⟩ := exists_mem_of_ne_nil _ hnonempty
      have hbelow := hleast (Set.mem_insert_of_mem _ ⟨file, hfile, rfl⟩)
      have htime := (h.times file hfile).1.2
      exact ⟨file, hfile, by omega⟩
    · exact hfile
  maxTime := by
    intro hnonempty
    obtain ⟨hmem, hgreatest⟩ := (IndexMetadata.times_ofFiles index.files.items).2
    rw [h.recomputed]
    refine ⟨?_, fun time htime => hgreatest (Set.mem_insert_of_mem _ htime)⟩
    rcases hmem with hstart | hfile
    · obtain ⟨file, hfile, hafter⟩ := h.someAfterEpoch.resolve_left hnonempty
      have habove := hgreatest (Set.mem_insert_of_mem _ ⟨file, hfile, rfl⟩)
      exact ⟨file, hfile, by omega⟩
    · exact hfile

end CoreTableIndex

theorem SomeAfterEpoch.perm {files more : List ParquetFile} (h : SomeAfterEpoch files)
    (hperm : files.Perm more) : SomeAfterEpoch more := by
  rcases h with rfl | ⟨file, hfile, hafter⟩
  · exact .inl hperm.nil_eq.symm
  · exact .inr ⟨file, hperm.mem_iff.mp hfile, hafter⟩

theorem SomeAfterEpoch.append {files more : List ParquetFile} (h : SomeAfterEpoch files)
    (hmore : SomeAfterEpoch more) : SomeAfterEpoch (files ++ more) := by
  rcases h with rfl | ⟨file, hfile, hafter⟩
  · exact hmore
  · exact .inr ⟨file, mem_append_left _ hfile, hafter⟩

namespace CoreTableIndex.Sound

variable {index other merged : CoreTableIndex} {id : TableIndexId}

theorem new (id : TableIndexId) : Sound { id := id } where
  recomputed := rfl
  times := fun _ hfile => absurd hfile not_mem_nil
  someAfterEpoch := .inl rfl

variable {removed : List Nat}

theorem fromSnapshots {snapshots : List TableIndexSnapshot}
    (htimes : ∀ snapshot ∈ snapshots, ∀ file ∈ snapshot.files,
      IsTimestamp file.minTime ∧ IsTimestamp file.maxTime)
    (hcounts : CountsRight (.fromSnapshots id snapshots))
    (h : CoreTableIndex.fromSnapshots id snapshots = .ok (index, removed)) : index.Sound := by
  obtain ⟨_, rfl⟩ := fromSnapshots_eq_ok h
  obtain ⟨hnodup, hafter⟩ := hcounts
  have hperm := KeySet.perm_collect hnodup
  constructor
  case recomputed => exact IndexMetadata.ofFiles_perm hperm.symm
  case times =>
    intro file hfile
    obtain ⟨⟨snapshot, hsnapshot, hlisted⟩, _⟩ := mem_addedBy.mp (KeySet.mem_of_mem_collect hfile)
    exact htimes snapshot hsnapshot file hlisted
  case someAfterEpoch => exact hafter.perm hperm.symm

theorem merge (hindex : index.Sound) (hother : other.Sound)
    (hcounts : CountsRight (.merge index other)) (h : index.merge other = .ok merged) :
    merged.Sound := by
  obtain rfl := merge_eq_ok h
  have hnodup : (other.files.items.map ParquetFile.id).Nodup :=
    pairwise_map.mpr (other.files.sorted.imp fun hlt => hlt.ne)
  have hperm := KeySet.perm_extend hnodup fun new hnew file hfile => hcounts file hfile new hnew
  constructor
  case recomputed =>
    rw [IndexMetadata.ofFiles_perm hperm, IndexMetadata.ofFiles_append, ← hindex.recomputed,
      ← hother.recomputed]
  case times =>
    intro file hfile
    rcases KeySet.mem_of_mem_extend hfile with hold | hnew
    · exact hindex.times file hold
    · exact hother.times file hnew
  case someAfterEpoch =>
    exact (hindex.someAfterEpoch.append hother.someAfterEpoch).perm hperm.symm

/-- Pruning makes the metadata right, whatever they were. -/
theorem pruneRemoved
    (htimes : ∀ file ∈ index.files.items, IsTimestamp file.minTime ∧ IsTimestamp file.maxTime)
    (hafter : SomeAfterEpoch (index.files.items.filter fun file => file.id ∉ removed)) :
    (index.pruneRemoved removed).Sound where
  recomputed := rfl
  times := fun file hfile => htimes file (mem_filter.mp hfile).1
  someAfterEpoch := hafter

theorem withLatest (h : index.Sound) (latest : Nat) :
    Sound { index with latestSnapshotSequenceNumber := latest } :=
  ⟨h.recomputed, h.times, h.someAfterEpoch⟩

theorem mergeLoaded {loaded : List TableIndexSnapshot} (h : index.Sound)
    (htimes : ∀ snapshot ∈ loaded, ∀ file ∈ snapshot.files,
      IsTimestamp file.minTime ∧ IsTimestamp file.maxTime)
    (hsame : ∀ file ∈ index.remaining loaded, ∀ new ∈ index.remaining loaded,
      file.id = new.id → file = new)
    (hafter : SomeAfterEpoch (index.remaining loaded))
    (hmerged : index.mergeLoaded loaded = .ok merged) : merged.Sound := by
  rcases mergeLoaded_eq_ok hmerged with ⟨_, rfl⟩ | ⟨between, _, hfiles, _, rfl⟩
  · exact h
  · refine .pruneRemoved ?_ ?_
    · intro file hfile
      rw [hfiles] at hfile
      rcases KeySet.mem_of_mem_extend hfile with hold | hnew
      · exact h.times file hold
      · obtain ⟨⟨snapshot, hsnapshot, hlisted⟩, _⟩ :=
          mem_addedBy.mp (KeySet.mem_of_mem_collect hnew)
        exact htimes snapshot hsnapshot file hlisted
    · rw [hfiles]
      rcases hafter with hnone | ⟨file, hfile, hafter⟩
      · refine .inl (eq_nil_iff_forall_not_mem.mpr fun file hfile => ?_)
        have hremaining : file ∈ index.remaining loaded := mem_remaining_of_mem_mergedFiles hfile
        rw [hnone] at hremaining
        exact not_mem_nil hremaining
      · have hmerged := mem_mergedFiles_of_mem_remaining
          (fun other hother hid => hsame other hother file hfile hid) hfile
        exact .inr ⟨file, hmerged, hafter⟩

theorem updateFromObjectStore {answers : List (Nat × SnapshotGet)} (h : index.Sound)
    (htimes : ∀ snapshot ∈ foundIn answers, ∀ file ∈ snapshot.files,
      IsTimestamp file.minTime ∧ IsTimestamp file.maxTime)
    (hcounts : CountsRight (.updateFromObjectStore index answers)) :
    (index.updateFromObjectStore answers).2.Sound := by
  obtain ⟨latest, hfailed | ⟨merged, hmerged, hloaded⟩⟩ := updateFromObjectStore_cases index answers
  · rw [hfailed]
    exact h.withLatest latest
  · rw [hmerged]
    exact (h.withLatest latest).mergeLoaded htimes hcounts.1 hcounts.2 hloaded

end CoreTableIndex.Sound

theorem sound_of_countsRight {index : CoreTableIndex} (hmade : Made CountsRight index) :
    index.Sound := by
  induction hmade with
  | new id => exact .new id
  | @operation operation index _ htimes hallowed hrun ih =>
    cases operation with
    | fromSnapshots id snapshots =>
      simp only [IndexOperation.run] at hrun
      split at hrun
      · rename_i hmade
        exact Option.some.inj hrun ▸ .fromSnapshots htimes hallowed hmade
      · exact nomatch hrun
    | merge first second =>
      have hfirst := ih first (by simp [IndexOperation.inputs])
      have hsecond := ih second (by simp [IndexOperation.inputs])
      simp only [IndexOperation.run] at hrun
      split at hrun
      · rename_i hmerged
        exact Option.some.inj hrun ▸ hfirst.merge hsecond hallowed hmerged
      · exact nomatch hrun
    | pruneRemoved input removed =>
      have hinput := ih input (by simp [IndexOperation.inputs])
      obtain rfl := Option.some.inj hrun
      exact .pruneRemoved hinput.times hallowed
    | updateFromObjectStore input answers =>
      have hinput := ih input (by simp [IndexOperation.inputs])
      obtain rfl := Option.some.inj hrun
      exact hinput.updateFromObjectStore htimes hallowed
    | purgeExpired input cutoffTimeNs =>
      have hinput := ih input (by simp [IndexOperation.inputs])
      have hunchanged : input.purgeExpired cutoffTimeNs = input := if_pos hallowed
      obtain rfl := Option.some.inj hrun
      rwa [hunchanged]

/-- Every index that is made by operations that count each file once, purge none, and do not leave
only files from before the epoch has the metadata of its files. -/
theorem exact_of_countsRight {index : CoreTableIndex} (hmade : Made CountsRight index) :
    index.Exact :=
  (sound_of_countsRight hmade).exact

section Examples

def indexedFile (id rowCount : Nat) (minTime maxTime : Int) : ParquetFile where
  id := id
  path := ""
  sizeBytes := 100
  rowCount := rowCount
  chunkTime := 0
  minTime := minTime
  maxTime := maxTime

def sampleId : TableIndexId := ⟨"node", ⟨1, 1⟩⟩

def sampleSnapshot (number : Nat) (file : ParquetFile) (removed : List Nat) :
    TableIndexSnapshot where
  id := sampleId
  snapshotSequenceNumber := number
  files := [file]
  removedFiles := removed
  nodup_files := nodup_singleton file

def firstSnapshot : TableIndexSnapshot := sampleSnapshot 1 (indexedFile 1 5 (-20) (-10)) []

def secondSnapshot : TableIndexSnapshot := sampleSnapshot 2 (indexedFile 2 7 3 30) []

def updatedIndex : CoreTableIndex :=
  (CoreTableIndex.updateFromObjectStore { id := sampleId }
    [(1, .found firstSnapshot), (2, .found secondSnapshot)]).2

theorem made_updatedIndex {allowed : IndexOperation → Prop}
    (hallowed : allowed (.updateFromObjectStore { id := sampleId }
      [(1, .found firstSnapshot), (2, .found secondSnapshot)])) : Made allowed updatedIndex :=
  .operation (by simpa [IndexOperation.inputs] using .new sampleId) (by decide) hallowed rfl

/-- Two snapshots merged into a new index, one of them with a file from before the epoch. -/
theorem exact_updatedIndex :
    updatedIndex.metadata = ⟨200, 12, -20, 30⟩ ∧ updatedIndex.Exact :=
  ⟨by decide, exact_of_countsRight (made_updatedIndex (by decide))⟩

/-- A purge leaves the counts of the files it has deleted; a file that is listed twice is counted
twice; an index of files from before the epoch ends at the epoch. -/
theorem metadata_not_exact :
    (∃ index, Made (fun _ => True) index ∧
      IndexOperation.run (.purgeExpired updatedIndex 10) = some index ∧ ¬ index.Exact) ∧
    (∃ index, Made (fun _ => True) index ∧
      IndexOperation.run (.fromSnapshots sampleId [secondSnapshot, secondSnapshot]) = some index ∧
      ¬ index.Exact) ∧
    ∃ index, Made (fun _ => True) index ∧
      IndexOperation.run (.fromSnapshots sampleId [firstSnapshot]) = some index ∧
      ¬ index.Exact := by
  refine ⟨⟨_, ?_, rfl, ?_⟩, ⟨_, ?_, rfl, ?_⟩, ⟨_, ?_, rfl, ?_⟩⟩
  · have hinput : Made (fun _ => True) updatedIndex := made_updatedIndex trivial
    exact @Made.operation _ (.purgeExpired updatedIndex 10) _
      (by simpa [IndexOperation.inputs] using hinput) (by decide) trivial rfl
  · exact fun hexact => absurd hexact.rowCount (by decide)
  · exact @Made.operation _ (.fromSnapshots sampleId [secondSnapshot, secondSnapshot]) _
      (by simp [IndexOperation.inputs]) (by decide) trivial rfl
  · exact fun hexact => absurd hexact.rowCount (by decide)
  · exact @Made.operation _ (.fromSnapshots sampleId [firstSnapshot]) _
      (by simp [IndexOperation.inputs]) (by decide) trivial rfl
  · intro hexact
    obtain ⟨file, hfile, hzero⟩ := (hexact.maxTime (by decide)).1
    obtain rfl : file = indexedFile 1 5 (-20) (-10) := mem_singleton.mp hfile
    exact absurd hzero (by decide)

end Examples

end Soundness

end RefluxDb.Write
