import Mathlib.Data.List.MinMax
import RefluxDb.Wal.Chronicle

/-! A node's WAL over any number of processes: flushing, snapshots, crashes and replay.

A process flushes WAL files, persists the snapshots its tracker issues and deletes the WAL files
they cover. It holds one permit for a snapshot and its deletions, so it issues no snapshot while
those of another are under way. Steps are the durable ones, a put or a deletion at a time, and here
a flush is one step; a crash between any two drops the process, and the next one, with a
configuration of its own, starts from the newest persisted snapshot and replays the WAL files
after it.

`history` keeps every WAL file that became durable, and `deleted` the numbers of deleted files,
with whether the process was replaying. -/

namespace RefluxDb.Wal

open RefluxDb.Library

structure WalConfig where
  snapshotSize : Nat
  gen1Duration : Gen1Duration
  snapshottedWalFilesToKeep : Nat
deriving DecidableEq

/-- A persisted snapshot with the rows of its files. -/
structure SnapshotManifest where
  details : SnapshotDetails
  rows : List WalRow
deriving DecidableEq

/-- What the holder of the snapshot permit is doing. -/
inductive SnapshotTask where
  | persist (details : SnapshotDetails) (snapshotted : List BufferedRow)
      (cleanup : Option SnapshotDetails)
  | delete (next lastToDelete : Nat)

/-- A process: the numbers it was started with, and the files it has yet to replay. -/
structure WalObjectStore where
  tracker : SnapshotTracker
  walFileSequenceNumber : Nat
  buffer : List BufferedRow
  oldestWalFile : Option Nat
  lastSnapshottedWalSequenceNumber : Option Nat
  snapshottedWalFilesToKeep : Nat
  lastWalSequenceNumber : Option Nat
  lastSnapshotSequenceNumber : Nat
  replaying : Bool
  remaining : List WalContents
  task : Option SnapshotTask

/-- The number before which a cleanup deletes all files, but for the number to keep; `none` when
there is nothing to delete. The numbers are 64-bit ones. -/
def lastToDelete (snapshottedWalFilesToKeep oldest last : Nat) : Option Nat :=
  let currNumFiles := (last + 2 ^ 64 - oldest) % 2 ^ 64
  if snapshottedWalFilesToKeep < currNumFiles then
    let numFilesToDelete := currNumFiles - snapshottedWalFilesToKeep
    some ((oldest + numFilesToDelete) % 2 ^ 64)
  else none

namespace WalObjectStore

variable (store : WalObjectStore)

/-- The rows of a file added to the buffer. -/
def notify (file : WalFile) : List BufferedRow :=
  store.buffer ++ file.bufferedRows store.tracker.gen1Duration

/-- Starts the deletion of the files a snapshot covers. -/
def removeSnapshotWalFiles (details : SnapshotDetails) : WalObjectStore :=
  let oldest := store.oldestWalFile.getD 1
  let last := details.lastWalSequenceNumber
  { store with
    lastSnapshottedWalSequenceNumber := some last
    task := (lastToDelete store.snapshottedWalFilesToKeep oldest last).map (.delete oldest ·) }

/-- The part of the flush of a file before its put. A snapshot waits for the permit. `none` is a
flush that cannot happen or a panic. -/
def flushBufferIntoContents (file : WalFile) (forceSnapshot : Bool) :
    Option (WalObjectStore × WalContents) :=
  if store.replaying = false ∧ file.number = store.walFileSequenceNumber ∧
      file.number < 2 ^ 64 ∧ file.minTime ≤ file.maxTime then do
    let (tracker, contents) ← store.tracker.takeFile file forceSnapshot
    if contents.snapshot.isSome ∧ store.task.isSome then none
    else some ({ store with
      tracker := tracker
      walFileSequenceNumber := file.number + 1 }, contents)
  else none

/-- The part of a flush after the put: `notify`, or `notify_and_snapshot` for a file with one. -/
def notifyContents (contents : WalContents) : WalObjectStore :=
  match contents.snapshot with
  | none => { store with buffer := store.notify contents.file }
  | some details =>
    let (snapshotted, kept) := tableBufferSnapshot (store.notify contents.file)
      details.endTimeMarker
    { store with buffer := kept, task := some (.persist details snapshotted (some details)) }

def flush (file : WalFile) (forceSnapshot : Bool) : Option (WalObjectStore × WalContents) :=
  (store.flushBufferIntoContents file forceSnapshot).map fun (taken, contents) =>
    (taken.notifyContents contents, contents)

/-- Replays the next file. A snapshot that is newer than the last persisted one is taken as the
file has it; the tracker takes one of its own, which says what to delete. -/
def replayNext : Option WalObjectStore :=
  match store.replaying, store.task, store.remaining with
  | true, none, contents :: rest =>
    if contents.file.minTime ≤ contents.file.maxTime then
      (store.tracker.addWalPeriod contents.period).map fun tracker =>
        let buffer := store.notify contents.file
        match contents.snapshot with
        | none =>
          { store with
            tracker := tracker
            walFileSequenceNumber := contents.number + 1
            buffer := buffer
            remaining := rest }
        | some details =>
          let snapshot := tracker.snapshot details.forced
          let snapshotInfo := snapshot.map (·.1)
          let replayed : WalObjectStore :=
            { store with
              tracker := (snapshot.map (·.2)).getD tracker
              walFileSequenceNumber := contents.number + 1
              buffer := buffer
              remaining := rest }
          if details.snapshotSequenceNumber ≤ store.lastSnapshotSequenceNumber then
            match snapshotInfo with
            | none => replayed
            | some info => replayed.removeSnapshotWalFiles info
          else
            let (snapshotted, kept) := tableBufferSnapshot buffer details.endTimeMarker
            { replayed with
              buffer := kept
              task := some (.persist details snapshotted snapshotInfo) }
    else none
  | _, _, _ => none

end WalObjectStore

structure WalSystem where
  walFiles : List WalContents := []
  snapshots : List SnapshotManifest := []
  process : Option WalObjectStore := none
  history : List WalContents := []
  deleted : List (Nat × Bool) := []

inductive WalAction where
  | start (config : WalConfig)
  | flush (file : WalFile) (forceSnapshot : Bool)
  | persistSnapshot
  | deleteWalFile
  | replayNext
  | finishReplay
  | crash

namespace WalSystem

variable (system : WalSystem)

def newestSnapshot : Option SnapshotManifest :=
  system.snapshots.argmax (·.details.snapshotSequenceNumber)

/-- A new process, with the files it is to replay. -/
def start (config : WalConfig) : WalSystem :=
  let lastWal := system.newestSnapshot.map (·.details.lastWalSequenceNumber)
  let lastSnapshot := system.newestSnapshot.map (·.details.snapshotSequenceNumber)
  { system with
    process := some
      { tracker := .new config.snapshotSize config.gen1Duration lastSnapshot
        walFileSequenceNumber := lastWal.getD 0 + 1
        buffer := []
        oldestWalFile := system.walFiles.head?.map (·.number)
        lastSnapshottedWalSequenceNumber := lastWal
        snapshottedWalFilesToKeep := config.snapshottedWalFilesToKeep
        lastWalSequenceNumber := lastWal
        lastSnapshotSequenceNumber := lastSnapshot.getD 0
        replaying := true
        remaining := system.walFiles.filter fun contents => lastWal.all (· < contents.number)
        task := none } }

/-- Persists the snapshot of the permit's holder, and starts the deletions it calls for. -/
def persistSnapshot (store : WalObjectStore) : Option WalSystem :=
  match store.task with
  | some (.persist details snapshotted cleanup) =>
    some { system with
      snapshots := system.snapshots ++ [⟨details, snapshotted.map (·.row)⟩]
      process := some <| match cleanup with
        | some info => store.removeSnapshotWalFiles info
        | none => { store with task := none } }
  | _ => none

/-- The record of deletions with one more, if there is such a file. -/
def recordDeletion (number : Nat) (replaying : Bool) : List (Nat × Bool) :=
  if system.walFiles.any fun contents => decide (contents.number = number) then
    system.deleted ++ [(number, replaying)]
  else system.deleted

/-- Deletes the next file of a cleanup, or ends it. -/
def deleteWalFile (store : WalObjectStore) : Option WalSystem :=
  match store.task with
  | some (.delete next lastToDelete) =>
    if next < lastToDelete then
      some { system with
        walFiles := system.walFiles.filter fun contents => decide (contents.number ≠ next)
        process := some { store with task := some (.delete (next + 1) lastToDelete) }
        deleted := system.recordDeletion next store.replaying }
    else
      some { system with
        process := some { store with oldestWalFile := some lastToDelete, task := none } }
  | _ => none

def step (system : WalSystem) : WalAction → Option WalSystem
  | .start config => if system.process.isNone then some (system.start config) else none
  | .flush file forceSnapshot => do
      let store ← system.process
      let (store, contents) ← store.flush file forceSnapshot
      pure { system with
        walFiles := system.walFiles ++ [contents]
        process := some store
        history := system.history ++ [contents] }
  | .persistSnapshot => do
      let store ← system.process
      system.persistSnapshot store
  | .deleteWalFile => do
      let store ← system.process
      system.deleteWalFile store
  | .replayNext => do
      let store ← system.process
      let store ← store.replayNext
      pure { system with process := some store }
  | .finishReplay => do
      let store ← system.process
      if store.replaying ∧ store.remaining.isEmpty ∧ store.task.isNone then
        pure { system with process := some { store with replaying := false } }
      else none
  | .crash => if system.process.isSome then some { system with process := none } else none

end WalSystem

section Inversion

variable {store flushed : WalObjectStore} {file : WalFile} {forceSnapshot : Bool}
variable {contents : WalContents}

theorem WalObjectStore.flushBufferIntoContents_eq_some {taken : WalObjectStore}
    (htaken : store.flushBufferIntoContents file forceSnapshot = some (taken, contents)) :
    (store.replaying = false ∧ file.number = store.walFileSequenceNumber ∧
        file.number < 2 ^ 64 ∧ file.minTime ≤ file.maxTime) ∧
      ∃ tracker, store.tracker.takeFile file forceSnapshot = some (tracker, contents) ∧
        (∀ details ∈ contents.snapshot, store.task = none) ∧
        taken = { store with
          tracker := tracker
          walFileSequenceNumber := file.number + 1 } := by
  unfold flushBufferIntoContents at htaken
  split at htaken
  case isFalse => cases htaken
  case isTrue hguard =>
    obtain ⟨⟨tracker, _⟩, htake, htaken⟩ := Option.bind_eq_some_iff.mp htaken
    simp only [Option.ite_none_left_eq_some, Option.some.injEq, Prod.mk.injEq] at htaken
    obtain ⟨hpermit, rfl, rfl⟩ := htaken
    refine ⟨hguard, tracker, htake, fun details hdetails => ?_, rfl⟩
    simpa [Option.mem_def.mp hdetails] using hpermit

/-- What a flush does: it embeds the snapshot of its tracker, if there is one. -/
theorem WalObjectStore.flush_eq_some
    (hflush : store.flush file forceSnapshot = some (flushed, contents)) :
    (store.replaying = false ∧ file.number = store.walFileSequenceNumber ∧
        file.number < 2 ^ 64 ∧ file.minTime ≤ file.maxTime) ∧
      contents.file = file ∧ ∃ added, store.tracker.addWalPeriod file.period = some added ∧
        ((contents.snapshot = none ∧ added.snapshot forceSnapshot = none ∧
            flushed = { store with
              tracker := added
              walFileSequenceNumber := file.number + 1
              buffer := store.notify file }) ∨
          ∃ details tracker, contents.snapshot = some details ∧
            added.snapshot forceSnapshot = some (details, tracker) ∧ store.task = none ∧
            flushed = { store with
              tracker := tracker
              walFileSequenceNumber := file.number + 1
              buffer := (tableBufferSnapshot (store.notify file) details.endTimeMarker).2
              task := some (.persist details
                (tableBufferSnapshot (store.notify file) details.endTimeMarker).1
                (some details)) }) := by
  obtain ⟨⟨taken, _⟩, htaken, hflush⟩ := Option.map_eq_some_iff.mp hflush
  obtain ⟨rfl, rfl⟩ := Prod.mk.inj hflush
  obtain ⟨hguard, tracker, htake, hpermit, rfl⟩ := flushBufferIntoContents_eq_some htaken
  have hduration := SnapshotTracker.gen1Duration_takeFile htake
  obtain ⟨rfl, added, hadded, hcases⟩ := SnapshotTracker.takeFile_eq_some htake
  refine ⟨hguard, rfl, added, hadded, ?_⟩
  rcases hcases with ⟨hnone, hissue, rfl⟩ | ⟨details, hsome, hissue⟩
  · refine .inl ⟨hnone, hissue, ?_⟩
    simp only [notifyContents, hnone, notify, hduration]
  · refine .inr ⟨details, tracker, hsome, hissue, hpermit details hsome, ?_⟩
    simp only [notifyContents, hsome, notify, hduration]

/-- What a replayed file without a snapshot does, and one with a snapshot, which is taken unless
it is persisted already. -/
theorem WalObjectStore.replayNext_eq_some {replayed : WalObjectStore}
    (hreplay : store.replayNext = some replayed) :
    ∃ contents rest added, store.replaying = true ∧ store.task = none ∧
      store.remaining = contents :: rest ∧
      store.tracker.addWalPeriod contents.period = some added ∧
      ((contents.snapshot = none ∧ replayed = { store with
          tracker := added
          walFileSequenceNumber := contents.number + 1
          buffer := store.notify contents.file
          remaining := rest }) ∨
        ∃ details, contents.snapshot = some details ∧
          let snapshot := added.snapshot details.forced
          let taken : WalObjectStore := { store with
            tracker := (snapshot.map (·.2)).getD added
            walFileSequenceNumber := contents.number + 1
            buffer := store.notify contents.file
            remaining := rest }
          ((details.snapshotSequenceNumber ≤ store.lastSnapshotSequenceNumber ∧
              replayed = (snapshot.map (·.1)).elim taken taken.removeSnapshotWalFiles) ∨
            (store.lastSnapshotSequenceNumber < details.snapshotSequenceNumber ∧
              replayed = { taken with
                buffer := (tableBufferSnapshot (store.notify contents.file)
                  details.endTimeMarker).2
                task := some (.persist details (tableBufferSnapshot (store.notify contents.file)
                  details.endTimeMarker).1 (snapshot.map (·.1))) }))) := by
  unfold WalObjectStore.replayNext at hreplay
  split at hreplay
  case h_2 => cases hreplay
  case h_1 contents rest hreplaying htask hremaining =>
    split at hreplay
    case isFalse => cases hreplay
    case isTrue =>
      obtain ⟨added, hadded, hreplay⟩ := Option.map_eq_some_iff.mp hreplay
      refine ⟨contents, rest, added, hreplaying, htask, hremaining, hadded, ?_⟩
      cases hcontents : contents.snapshot with
      | none =>
        simp only [hcontents] at hreplay
        exact .inl ⟨rfl, hreplay.symm⟩
      | some details =>
        refine .inr ⟨details, rfl, ?_⟩
        simp only [hcontents] at hreplay
        split at hreplay
        case isTrue hle =>
          refine .inl ⟨hle, ?_⟩
          rw [← hreplay]
          cases added.snapshot details.forced <;> rfl
        case isFalse hlt => exact .inr ⟨not_le.mp hlt, hreplay.symm⟩

end Inversion

/-- Runs start with an empty object store. -/
def walMachine : Machine WalSystem WalAction where
  initial system := system = {}
  step := WalSystem.step

end RefluxDb.Wal
