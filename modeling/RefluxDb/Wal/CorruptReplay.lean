import Mathlib.Data.List.Sort
import RefluxDb.Library.Fallible
import RefluxDb.Library.Text
import RefluxDb.Wal.SnapshotTracker

/-! The number of the first WAL file after a restart, when some files cannot be read.

Replay goes through the files in the order of their paths and numbers the next file after each one
it reads. A corrupt file that it skips does not count, so the next number is above all files just
when the last one it reads has the highest number. -/

namespace RefluxDb.Wal

open RefluxDb.Library Fallible

/-- What loading a WAL file gives: its contents, an error that says it is corrupt, or another
error. -/
inductive LoadedWalFile where
  | contents (minTime maxTime : Int) (snapshot : Option SnapshotDetails)
  | corrupt
  | failed

structure StoredWalFile where
  number : Nat
  loaded : LoadedWalFile

/-- The file name in a WAL path; all paths of a node agree before it. -/
def walFileName (number : Nat) : String := .ofList (Text.padded 11 number ++ ".wal".toList)

def loadAllWalFilePaths (files : List StoredWalFile) : List StoredWalFile :=
  files.insertionSort fun a b => walFileName a.number ≤ walFileName b.number

/-- The files after the last one of the persisted snapshots, by their paths. -/
def loadExistingWalFilePaths (lastWalSequenceNumber : Option Nat) (paths : List StoredWalFile) :
    List StoredWalFile :=
  paths.filter fun file => lastWalSequenceNumber.all fun last =>
    walFileName last < walFileName file.number

/-- A file that replay cannot load and does not skip. -/
structure LoadError where
  number : Nat

/-- The snapshot tracker and the number of the next WAL file. -/
structure ReplayState where
  tracker : SnapshotTracker
  walFileSequenceNumber : Nat

namespace ReplayState

def newWithoutReplay (snapshotSize : Nat) (gen1Duration : Gen1Duration)
    (lastWalSequenceNumber lastSnapshotSequenceNumber : Option Nat) : ReplayState where
  tracker := .new snapshotSize gen1Duration lastSnapshotSequenceNumber
  walFileSequenceNumber := lastWalSequenceNumber.getD 0 + 1

variable (state : ReplayState)

def replayWalPeriod (period : WalPeriod) : Fallible LoadError ReplayState := do
  Fallible.ensure (period.minTime ≤ period.maxTime)
    (.panic "assertion failed: min_time <= max_time")
  let tracker ← Fallible.expect
    "assertion failed: last_period.wal_file_number < wal_period.wal_file_number"
    (state.tracker.addWalPeriod period)
  pure { tracker := tracker, walFileSequenceNumber := period.walFileNumber + 1 }

/-- Replays one file. What the notifier does with it and which files it then deletes is left out. -/
def replayFile (failOnError : Bool) (file : StoredWalFile) : Fallible LoadError ReplayState :=
  match file.loaded with
  | .contents minTime maxTime snapshot => do
      let state ← state.replayWalPeriod ⟨file.number, minTime, maxTime⟩
      match snapshot with
      | none => pure state
      | some details => pure { state with
          tracker := ((state.tracker.snapshot details.forced).map Prod.snd).getD state.tracker }
  | .corrupt => if failOnError then throw (.error ⟨file.number⟩) else pure state
  | .failed => throw (.error ⟨file.number⟩)

def replay (lastWalSequenceNumber : Option Nat) (failOnError : Bool)
    (files : List StoredWalFile) : Fallible LoadError ReplayState :=
  (loadExistingWalFilePaths lastWalSequenceNumber (loadAllWalFilePaths files)).foldlM
    (fun state file => state.replayFile failOnError file) state

end ReplayState

/-- Whether replay gets the contents of the file. -/
def StoredWalFile.readable (file : StoredWalFile) : Bool :=
  match file.loaded with
  | .contents _ _ _ => true
  | .corrupt | .failed => false

def readFiles (lastWalSequenceNumber : Option Nat) (files : List StoredWalFile) :
    List StoredWalFile :=
  (loadExistingWalFilePaths lastWalSequenceNumber (loadAllWalFilePaths files)).filter
    (·.readable)

/-- No file has a higher number than the last one replay reads, or, where it reads none, than the
last one of the persisted snapshots. -/
def HighestRead (lastWalSequenceNumber : Option Nat) (files : List StoredWalFile) : Prop :=
  match (readFiles lastWalSequenceNumber files).getLast? with
  | some newest => ∀ file ∈ files, file.number ≤ newest.number
  | none => ∀ file ∈ files, file.number ≤ lastWalSequenceNumber.getD 0

section Replay

variable {state next replayed : ReplayState} {file : StoredWalFile} {failOnError : Bool}
variable {lastWalSequenceNumber : Option Nat} {files : List StoredWalFile}

theorem replayFile_number (hok : state.replayFile failOnError file = .ok next) :
    next.walFileSequenceNumber =
      if file.readable then file.number + 1 else state.walFileSequenceNumber := by
  unfold ReplayState.replayFile at hok
  unfold StoredWalFile.readable
  split at hok
  · simp only [ReplayState.replayWalPeriod, bind_eq_ok, ensure_eq_ok,
      expect_eq_ok, pure_eq_ok] at hok
    obtain ⟨added, ⟨_, _, tracker, _, rfl⟩, hnext⟩ := hok
    split at hnext
    · rw [pure_eq_ok] at hnext
      simp [← hnext]
    · rw [pure_eq_ok] at hnext
      simp [← hnext]
  · split at hok
    · simp at hok
    · rw [pure_eq_ok] at hok
      simp [hok]
  · simp at hok

/-- Each file that is read sets the next number, the others leave it. -/
theorem foldlM_replayFile_number
    (hok : files.foldlM (fun state file => state.replayFile failOnError file) state =
      .ok replayed) :
    replayed.walFileSequenceNumber =
      (((files.filter (·.readable)).getLast?.map (·.number + 1)).getD
        state.walFileSequenceNumber) := by
  induction files generalizing state with
  | nil =>
    rw [List.foldlM_nil, pure_eq_ok] at hok
    simp [hok]
  | cons first rest ih =>
    rw [List.foldlM_cons, bind_eq_ok] at hok
    obtain ⟨next, hnext, hrest⟩ := hok
    rw [ih hrest, replayFile_number hnext]
    by_cases hreadable : first.readable = true
    · rw [List.filter_cons_of_pos hreadable, List.getLast?_cons, if_pos hreadable]
      cases (rest.filter (·.readable)).getLast? <;> simp
    · rw [List.filter_cons_of_neg hreadable, if_neg hreadable]

end Replay

/-- The number of the first WAL file after a successful replay is above all files of the store
just when the last file it reads has the highest number. -/
theorem replay_above_iff (snapshotSize : Nat) (gen1Duration : Gen1Duration)
    (lastWalSequenceNumber lastSnapshotSequenceNumber : Option Nat) (failOnError : Bool)
    (files : List StoredWalFile) (replayed : ReplayState)
    (hok : (ReplayState.newWithoutReplay snapshotSize gen1Duration lastWalSequenceNumber
      lastSnapshotSequenceNumber).replay lastWalSequenceNumber failOnError files = .ok replayed) :
    (∀ file ∈ files, file.number < replayed.walFileSequenceNumber) ↔
      HighestRead lastWalSequenceNumber files := by
  rw [foldlM_replayFile_number hok]
  unfold HighestRead readFiles
  cases (List.filter (·.readable) (loadExistingWalFilePaths lastWalSequenceNumber
    (loadAllWalFilePaths files))).getLast? with
  | none => exact forall₂_congr fun _ _ => Nat.lt_succ_iff
  | some newest => exact forall₂_congr fun _ _ => Nat.lt_succ_iff

instance (lastWalSequenceNumber : Option Nat) (files : List StoredWalFile) :
    Decidable (HighestRead lastWalSequenceNumber files) := by
  unfold HighestRead
  split <;> infer_instance

/-- The next WAL file number after the replay of a fresh node, if it succeeds. -/
def nextNumber (failOnError : Bool) (files : List StoredWalFile) : Option Nat :=
  ((ReplayState.newWithoutReplay 1 .new1m none none).replay none failOnError
    files).toOption.map (·.walFileSequenceNumber)

theorem exists_replay {failOnError : Bool} {files : List StoredWalFile} {number : Nat}
    (hnumber : nextNumber failOnError files = some number) :
    ∃ replayed, (ReplayState.newWithoutReplay 1 ⟨60000000000, by decide⟩ none none).replay none
      failOnError files = .ok replayed ∧ replayed.walFileSequenceNumber = number := by
  obtain ⟨replayed, hreplayed, rfl⟩ := Option.map_eq_some_iff.mp hnumber
  exact ⟨replayed, Fallible.toOption_eq_some.mp hreplayed, rfl⟩

/-- A corrupt file in front of one that is read. -/
theorem replay_above_iff_corrupt_front :
    ∃ replayed, (ReplayState.newWithoutReplay 1 ⟨60000000000, by decide⟩ none none).replay none
        false [⟨1, .corrupt⟩, ⟨2, .contents 0 1 none⟩] = .ok replayed ∧
      ∀ file ∈ ([⟨1, .corrupt⟩, ⟨2, .contents 0 1 none⟩] : List StoredWalFile),
        file.number < replayed.walFileSequenceNumber := by
  have hnumber : nextNumber false [⟨1, .corrupt⟩, ⟨2, .contents 0 1 none⟩] = some 3 := by decide
  obtain ⟨replayed, hreplayed, _⟩ := exists_replay hnumber
  exact ⟨replayed, hreplayed, (replay_above_iff _ _ _ _ _ _ _ hreplayed).mpr (by decide)⟩

/-- The number of a corrupt last file is given to the first file that is flushed. -/
theorem corrupt_tail_number_used_again :
    ∃ replayed, (ReplayState.newWithoutReplay 1 ⟨60000000000, by decide⟩ none none).replay none
        false [⟨1, .contents 0 1 none⟩, ⟨2, .corrupt⟩] = .ok replayed ∧
      replayed.walFileSequenceNumber = 2 ∧
      ¬∀ file ∈ ([⟨1, .contents 0 1 none⟩, ⟨2, .corrupt⟩] : List StoredWalFile),
        file.number < replayed.walFileSequenceNumber := by
  have hnumber : nextNumber false [⟨1, .contents 0 1 none⟩, ⟨2, .corrupt⟩] = some 2 := by decide
  obtain ⟨replayed, hreplayed, hnext⟩ := exists_replay hnumber
  exact ⟨replayed, hreplayed, hnext, by simp [hnext]⟩

end RefluxDb.Wal
