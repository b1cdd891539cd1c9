import RefluxDb.Write.Bookkeeping
import RefluxDb.Write.FoldOrder

/-! Marks for deletion under concurrent removals.

A removal collects the files to drop under a read lock and drops them, and all marks, under a
write lock taken afterwards. Between the two, tables are marked, manifests are folded and other
removals finish. What comes in between is what a removal loses: a mark that it clears without
having collected its files, or a file that it returns although another removal has dropped it. -/

namespace RefluxDb.Write

open List RefluxDb.Library
open RefluxDb.Catalog (InnerCatalog)

/-- A finished removal: what it returned, what it dropped, and the counters around it. -/
structure RemovalRecord where
  returned : Files
  dropped : Files
  countBefore : Nat
  countAfter : Nat
  rowsBefore : Nat
  rowsAfter : Nat

/-- The view, the removals between their two locks with the files they have queued, the files that
were listed when they were marked and have not been returned since, and the finished removals. -/
structure DeletionRun where
  inner : MarkedInner := {}
  calls : List Files := []
  due : Files := []
  finished : List RemovalRecord := []

inductive DeletionAction where
  | deleteDatabase (dbId : Nat)
  | deleteTable (key : TableKey)
  | fold (manifest : Manifest)
  | beginRemoval (catalog : InnerCatalog) (now : Int)
  | finishRemoval (index : Nat)

namespace DeletionRun

variable (run : DeletionRun)

def dropped (queue : Files) : Files :=
  run.inner.files.filter fun entry => decide (entry.2.path ∈ queue.map (·.2.path))

/-- The write lock of a removal. -/
def finishRemoval (queue : Files) (index : Nat) : DeletionRun :=
  let inner := run.inner.dropQueued queue
  { inner := inner
    calls := run.calls.eraseIdx index
    due := run.due.filter fun entry => decide (entry ∉ queue)
    finished := run.finished ++ [
      { returned := queue
        dropped := run.dropped queue
        countBefore := run.inner.parquetFilesCount
        countAfter := inner.parquetFilesCount
        rowsBefore := run.inner.parquetFilesRowCount
        rowsAfter := inner.parquetFilesRowCount }] }

def step : DeletionAction → Option DeletionRun
  | .deleteDatabase dbId => some { run with
      inner := run.inner.deleteDatabase dbId
      due := run.due ++ run.inner.files.filter fun entry => entry.1.dbId = dbId }
  | .deleteTable key => some { run with
      inner := run.inner.deleteTable key
      due := run.due ++ run.inner.files.filter fun entry => entry.1 = key }
  | .fold manifest => some { run with
      inner := { run.inner with toInner := run.inner.fold manifest } }
  | .beginRemoval catalog now =>
    let queue := run.inner.removedFiles catalog now
    -- a removal that finds nothing returns without the write lock
    some (if queue.isEmpty then run else { run with calls := run.calls ++ [queue] })
  | .finishRemoval index => (run.calls[index]?).map fun queue => run.finishRemoval queue index

end DeletionRun

/-- Runs start at a view with right books and without marks. -/
def deletionMachine : Machine DeletionRun DeletionAction where
  initial run := ∃ inner : Inner, inner.Booked ∧ run = { inner := { toInner := inner } }
  step := DeletionRun.step

/-- A file that was listed when it was marked is returned by a removal, or is listed and still
marked; each removal returns just the files it drops, so that no other returns them, and takes
them off the counters. -/
structure DeletionRun.MarksKept (run : DeletionRun) : Prop where
  due : ∀ entry ∈ run.due, entry ∈ run.inner.files ∧ run.inner.marked entry.1 = true
  finished : ∀ record ∈ run.finished, record.returned.Perm record.dropped ∧
    record.countBefore = record.countAfter + record.dropped.length ∧
    record.rowsBefore = record.rowsAfter + record.dropped.rowCount

/-- At its write lock a removal has queued every listed file of a marked table, the files it has
queued are all listed still, and no other table lists one of their paths. A fold removes no listed
file of a marked table. -/
def DeletionRun.Undisturbed (run : DeletionRun) : DeletionAction → Prop
  | .fold manifest => ∀ entry ∈ manifest.removes, entry ∈ run.inner.files.paths →
      run.inner.marked entry.1 = false
  | .finishRemoval index => ∀ queue ∈ run.calls[index]?,
      (∀ entry ∈ run.inner.files, run.inner.marked entry.1 = true → entry ∈ queue) ∧
      (∀ entry ∈ queue, entry ∈ run.inner.files) ∧
      ∀ entry ∈ run.inner.files, entry.2.path ∈ queue.map (·.2.path) → entry ∈ queue
  | _ => True

instance (run : DeletionRun) : (action : DeletionAction) → Decidable (run.Undisturbed action)
  | .fold manifest => inferInstanceAs (Decidable (∀ entry ∈ manifest.removes, _))
  | .finishRemoval index => inferInstanceAs (Decidable (∀ queue ∈ run.calls[index]?, _))
  | .deleteDatabase _ | .deleteTable _ | .beginRemoval .. => .isTrue trivial

section Marks

variable {inner : MarkedInner} {key other : TableKey} {dbId : Nat}

theorem marked_deleteDatabase :
    (inner.deleteDatabase dbId).marked key = (decide (key.dbId = dbId) || inner.marked key) := by
  obtain ⟨keyDb, tableId⟩ := key
  unfold MarkedInner.deleteDatabase MarkedInner.marked
  by_cases hdb : keyDb = dbId
  · subst hdb
    simp
  · simp [hdb]

theorem marked_deleteTable :
    (inner.deleteTable other).marked key = (decide (key = other) || inner.marked key) := by
  obtain ⟨keyDb, keyTable⟩ := key
  obtain ⟨otherDb, otherTable⟩ := other
  by_cases hdb : keyDb = otherDb
  · subst hdb
    cases hlookup : inner.deletedData.lookup keyDb with
    | none => simp [MarkedInner.deleteTable, MarkedInner.marked, hlookup]
    | some deleted =>
      cases deleted with
      | all => simp [MarkedInner.deleteTable, MarkedInner.marked, hlookup]
      | list tableIds => simp [MarkedInner.deleteTable, MarkedInner.marked, hlookup]
  · cases hlookup : inner.deletedData.lookup otherDb with
    | none =>
      simp [MarkedInner.deleteTable, MarkedInner.marked, hlookup, AList.lookup_insert_ne hdb, hdb]
    | some deleted =>
      cases deleted with
      | all => simp [MarkedInner.deleteTable, hlookup, hdb]
      | list tableIds =>
        simp [MarkedInner.deleteTable, MarkedInner.marked, hlookup, AList.lookup_insert_ne hdb, hdb]

end Marks

section Fold

variable {inner : Inner} {manifest : Manifest} {entry : TableKey × ParquetFile}

theorem mem_files_addFile {key : TableKey} {state : FoldState} {file : ParquetFile}
    (hentry : entry ∈ state.files) : entry ∈ (addFile key state file).files := by
  unfold addFile
  split
  · exact hentry
  · split
    · exact hentry
    · exact mem_append_left _ hentry

theorem mem_files_fold (hentry : entry ∈ inner.files)
    (hkept : (entry.1, entry.2.path) ∉ manifest.removes) : entry ∈ (inner.fold manifest).files := by
  rw [Inner.fold_eq]
  have hadded : entry ∈ (manifest.snapshot.databases.tables.foldl addTable
      ⟨inner.files, inner.removedTombstones, {}⟩).files := by
    refine foldl_keeps (fun state : FoldState => entry ∈ state.files)
      (fun state table _ hstate => ?_) hentry
    exact foldl_keeps (fun state : FoldState => entry ∈ state.files)
      (fun _ _ _ hnext => mem_files_addFile hnext) hstate
  refine foldl_keeps (fun state : FoldState => entry ∈ state.files)
    (fun state table htable hstate => ?_) hadded
  simp only [removeTable, mem_filter, Bool.not_eq_true', Bool.and_eq_false_iff,
    decide_eq_false_iff_not]
  refine ⟨hstate, ?_⟩
  by_cases hkey : entry.1 = table.1
  · right
    intro hpath
    exact hkept (mem_paths_tables.mpr ⟨table, htable, hkey, hpath⟩)
  · exact .inl hkey

end Fold

namespace DeletionRun

variable {run next : DeletionRun} {queue : Files} {index : Nat}

/-- The marks are kept, the books are right, and each removal has queued a path once. -/
structure Orderly (run : DeletionRun) : Prop where
  kept : run.MarksKept
  booked : run.inner.Booked
  queued : ∀ queue ∈ run.calls, (queue.map (·.2.path)).Nodup

section

variable (horderly : run.Orderly)
include horderly

theorem Orderly.mark {inner : MarkedInner} {more : Files}
    (hinner : inner.toInner = run.inner.toInner)
    (hmarked : ∀ key, run.inner.marked key = true → inner.marked key = true)
    (hmore : ∀ entry ∈ more, entry ∈ run.inner.files ∧ inner.marked entry.1 = true) :
    Orderly { run with inner := inner, due := run.due ++ more } where
  kept := by
    refine ⟨?_, horderly.kept.finished⟩
    intro entry hentry
    rw [hinner]
    rcases mem_append.mp hentry with hdue | hnew
    · obtain ⟨hlisted, hold⟩ := horderly.kept.due entry hdue
      exact ⟨hlisted, hmarked _ hold⟩
    · exact hmore entry hnew
  booked := by
    rw [hinner]
    exact horderly.booked
  queued := horderly.queued

theorem Orderly.fold {manifest : Manifest}
    (hallowed : run.Undisturbed (.fold manifest)) :
    Orderly { run with inner := { run.inner with toInner := run.inner.fold manifest } } where
  kept := by
    refine ⟨?_, horderly.kept.finished⟩
    intro entry hentry
    obtain ⟨hlisted, hmarked⟩ := horderly.kept.due entry hentry
    refine ⟨mem_files_fold hlisted ?_, hmarked⟩
    intro hremoved
    have hunmarked := hallowed _ hremoved (mem_map.mpr ⟨entry, hlisted, rfl⟩)
    rw [hmarked] at hunmarked
    cases hunmarked
  booked := by
    have hbooked := horderly.booked
    rw [Inner.fold_eq]
    exact hbooked.addPersistedSnapshot
  queued := horderly.queued

theorem Orderly.perm_dropped (hcall : run.calls[index]? = some queue)
    (hlisted : ∀ entry ∈ queue, entry ∈ run.inner.files)
    (hone : ∀ entry ∈ run.inner.files, entry.2.path ∈ queue.map (·.2.path) → entry ∈ queue) :
    (run.dropped queue).Perm queue := by
  have hqueue := (horderly.queued queue (mem_of_getElem? hcall)).of_map
  have hdropped : (run.dropped queue).Nodup := horderly.booked.nodup.of_map.filter _
  refine (perm_ext_iff_of_nodup hdropped hqueue).mpr fun entry => ?_
  rw [dropped, mem_filter, decide_eq_true_eq]
  constructor
  · rintro ⟨hentry, hpath⟩
    exact hone entry hentry hpath
  · intro hentry
    exact ⟨hlisted entry hentry, mem_map_of_mem hentry⟩

theorem Orderly.finishRemoval (hcall : run.calls[index]? = some queue)
    (hallowed : run.Undisturbed (.finishRemoval index)) :
    (run.finishRemoval queue index).Orderly := by
  obtain ⟨hmarks, hlisted, hone⟩ := hallowed queue hcall
  have hperm := horderly.perm_dropped hcall hlisted hone
  have hbooked := horderly.booked
  have hsplit := length_eq_length_filter_add (l := run.inner.files) fun entry =>
    decide (entry.2.path ∈ queue.map (·.2.path))
  have hrows := sum_filter_add_sum_filter_not (fun entry => entry.2.rowCount)
    (fun entry => decide (entry.2.path ∈ queue.map (·.2.path))) run.inner.files
  refine ⟨⟨?_, ?_⟩, hbooked.dropQueued hperm, ?_⟩
  · intro entry hentry
    obtain ⟨hdue, hleft⟩ := mem_filter.mp hentry
    obtain ⟨hfile, hmarked⟩ := horderly.kept.due entry hdue
    exact absurd (hmarks entry hfile hmarked) (by simpa using hleft)
  · refine forall_mem_concat.mpr ⟨horderly.kept.finished, ?_⟩
    refine ⟨hperm.symm, ?_, ?_⟩
    · change run.inner.parquetFilesCount =
        run.inner.parquetFilesCount - queue.length + (run.dropped queue).length
      rw [hbooked.counted.count, ← hperm.length_eq, dropped]
      omega
    · change run.inner.parquetFilesRowCount = run.inner.parquetFilesRowCount -
        (queue.map (·.2.rowCount)).sum + ((run.dropped queue).map (·.2.rowCount)).sum
      rw [hbooked.counted.rows, ← (hperm.map _).sum_nat, dropped, Files.rowCount]
      omega
  · intro other hother
    exact horderly.queued other (mem_of_mem_eraseIdx hother)

theorem Orderly.beginRemoval (catalog : InnerCatalog) (now : Int) :
    Orderly { run with calls := run.calls ++ [run.inner.removedFiles catalog now] } where
  kept := ⟨horderly.kept.due, horderly.kept.finished⟩
  booked := horderly.booked
  queued := by
    refine forall_mem_concat.mpr ⟨horderly.queued, ?_⟩
    exact nodup_removedFiles run.inner catalog now

theorem Orderly.step {action : DeletionAction}
    (hallowed : run.Undisturbed action) (hstep : run.step action = some next) : next.Orderly := by
  cases action with
  | deleteDatabase dbId =>
    obtain rfl := Option.some.inj hstep
    refine horderly.mark rfl (fun key hkey => ?_) fun entry hentry => ?_
    · rw [marked_deleteDatabase, hkey, Bool.or_true]
    · obtain ⟨hlisted, hdb⟩ := mem_filter.mp hentry
      exact ⟨hlisted, by rw [marked_deleteDatabase, hdb, Bool.true_or]⟩
  | deleteTable key =>
    obtain rfl := Option.some.inj hstep
    refine horderly.mark (MarkedInner.toInner_deleteTable _ _) (fun other hother => ?_)
      fun entry hentry => ?_
    · rw [marked_deleteTable, hother, Bool.or_true]
    · obtain ⟨hlisted, hkey⟩ := mem_filter.mp hentry
      exact ⟨hlisted, by rw [marked_deleteTable, hkey, Bool.true_or]⟩
  | fold manifest =>
    obtain rfl := Option.some.inj hstep
    exact horderly.fold hallowed
  | beginRemoval catalog now =>
    obtain rfl := Option.some.inj hstep
    split
    · exact horderly
    · exact horderly.beginRemoval catalog now
  | finishRemoval index =>
    obtain ⟨queue, hcall, rfl⟩ := Option.map_eq_some_iff.mp hstep
    exact horderly.finishRemoval hcall hallowed

end

/-- In every run whose removals find at their write lock what they queued under the read lock, and
whose folds leave the files of marked tables alone, no mark is lost. -/
theorem marksKept_of_undisturbed (run : DeletionRun)
    (hreachable : deletionMachine.Reachable Undisturbed run) : run.MarksKept := by
  have horderly : run.Orderly := by
    induction hreachable with
    | initial hinitial =>
      obtain ⟨inner, hbooked, rfl⟩ := hinitial
      exact ⟨⟨by simp, by simp⟩, hbooked, by simp⟩
    | step _ hallowed hstep ih => exact ih.step hallowed hstep
  exact horderly.kept

def written (databases : DatabaseTables) : Manifest :=
  .wal
    { nodeId := "writer"
      snapshotSequenceNumber := 1
      walFileSequenceNumber := 1
      databases := databases
      removedFiles := .empty }

/-- A writer's manifest with one file in each of two tables. -/
def twoTables : Manifest :=
  written ⟨[(⟨1, 1⟩, [MarkedInner.oneRowFile "a.parquet"]),
    (⟨1, 2⟩, [MarkedInner.oneRowFile "b.parquet"])], by decide⟩

theorem emptyRun_reachable {allowed : DeletionRun → DeletionAction → Prop} :
    deletionMachine.Reachable allowed {} := .initial ⟨{}, Inner.booked_empty, rfl⟩

/-- A table is marked and removed; between the two locks the other one gets a file. -/
theorem marksKept_of_undisturbed_one_table :
    ∃ run, deletionMachine.Reachable Undisturbed run ∧
      (run.finished.map (·.dropped.length)) = [1] ∧ run.MarksKept := by
  refine emptyRun_reachable.exists_of_exec_and
    [.fold twoTables, .deleteTable ⟨1, 1⟩, .beginRemoval {} 0,
      .fold (written ⟨[(⟨1, 2⟩, [MarkedInner.oneRowFile "c.parquet"])], by decide⟩),
      .finishRemoval 0]
    _ (by decide) (by decide) ?_
  exact marksKept_of_undisturbed

/-- A table that is marked between the two locks of a removal keeps its file and loses its mark. -/
theorem mark_lost_between_locks :
    ∃ run, deletionMachine.Reachable Machine.Unrestricted run ∧ ¬run.MarksKept := by
  obtain ⟨run, hreachable, entry, hentry, hunmarked⟩ := emptyRun_reachable.exists_of_run
    [.fold twoTables, .deleteTable ⟨1, 1⟩, .beginRemoval {} 0, .deleteTable ⟨1, 2⟩,
      .finishRemoval 0]
    (fun run => ∃ entry ∈ run.due, run.inner.marked entry.1 = false) (by decide)
  refine ⟨run, hreachable, fun hkept => ?_⟩
  simp [(hkept.due entry hentry).2] at hunmarked

end DeletionRun

end RefluxDb.Write
