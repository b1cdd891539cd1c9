import Mathlib.Data.List.Perm.Basic
import RefluxDb.Wal.Chronicle

/-! What the WAL may delete has left the write buffer.

Runs of the flushes of a process. Between the parts of a flush other flushes may run, as a forced
one does beside the periodic ones, and a put may fail for good: the write buffer is then told of
nothing, but the tracker keeps the period and the number of a snapshot it issued. A run may start
from any earlier snapshot, as a restarted process does. -/

namespace RefluxDb.Wal

open List Option RefluxDb.Library SnapshotTracker

/-- The flushes of a process. `begun` are all files that were swapped out: those in flight, those
the write buffer was told of and those whose put failed for good. `moved` are the rows that left
the buffer, each with the snapshot that moved it. -/
structure FlushLoop where
  tracker : SnapshotTracker
  walFileSequenceNumber : Nat
  lastSnapshottedWalSequenceNumber : Nat
  buffer : List BufferedRow := []
  inFlight : List Flight := []
  begun : List WalContents := []
  notified : List WalContents := []
  failed : List WalContents := []
  moved : List (BufferedRow × SnapshotDetails) := []

inductive FlushAction where
  | swap (file : WalFile) (forceSnapshot : Bool)
  | put (index : Nat)
  | notify (index : Nat)
  | giveUp (index : Nat)

namespace FlushLoop

variable (loop : FlushLoop)

/-- The snapshots of the tracker, and those the write buffer took. -/
abbrev issued : List SnapshotDetails := embedded loop.begun

abbrev handed : List SnapshotDetails := embedded loop.notified

def flying : List WalContents := loop.inFlight.map (·.contents)

/-- The files that were put. -/
def durable : List WalContents :=
  loop.notified ++ (loop.inFlight.filter (·.stored)).map (·.contents)

def rowsOf (contents : WalContents) : List BufferedRow :=
  contents.file.bufferedRows loop.tracker.gen1Duration

def swap (tracker : SnapshotTracker) (contents : WalContents) : FlushLoop :=
  { loop with
    tracker := tracker
    walFileSequenceNumber := contents.number
    lastSnapshottedWalSequenceNumber :=
      (contents.snapshot.map (·.lastWalSequenceNumber)).getD loop.lastSnapshottedWalSequenceNumber
    inFlight := loop.inFlight ++ [⟨contents, false⟩]
    begun := loop.begun ++ [contents] }

def notify (index : Nat) (contents : WalContents) : FlushLoop :=
  let told := { loop with
    buffer := loop.buffer ++ loop.rowsOf contents
    inFlight := loop.inFlight.eraseIdx index
    notified := loop.notified ++ [contents] }
  match contents.snapshot with
  | none => told
  | some details =>
    let (snapshotted, kept) := tableBufferSnapshot told.buffer details.endTimeMarker
    { told with buffer := kept, moved := loop.moved ++ snapshotted.map (·, details) }

/-- A flush that fails spends the number of the buffer that filled meanwhile too. -/
def giveUp (index : Nat) (contents : WalContents) : FlushLoop :=
  { loop with
    walFileSequenceNumber := loop.walFileSequenceNumber + 1
    inFlight := loop.inFlight.eraseIdx index
    failed := loop.failed ++ [contents] }

end FlushLoop

/-- A snapshot waits for the permit, which another flush in flight may hold. -/
def flushStep (loop : FlushLoop) : FlushAction → Option FlushLoop
  | .swap file forceSnapshot => do
    let (tracker, contents) ← loop.tracker.takeFile file forceSnapshot
    if loop.walFileSequenceNumber < file.number ∧
        (contents.snapshot.isSome → ∀ other ∈ loop.flying, other.snapshot = none) then
      some (loop.swap tracker contents)
    else none
  | .put index => do
    let flight ← loop.inFlight[index]?
    some { loop with inFlight := loop.inFlight.set index { flight with stored := true } }
  | .notify index => do
    let flight ← loop.inFlight[index]?
    if flight.stored then some (loop.notify index flight.contents) else none
  | .giveUp index => do
    let flight ← loop.inFlight[index]?
    if flight.stored then none else some (loop.giveUp index flight.contents)

/-- A process that starts with an empty write buffer from the last snapshot it persisted; the WAL
numbers its files from there. -/
def flushMachine : Machine FlushLoop FlushAction where
  initial loop :=
    ∃ snapshotSize gen1Duration snapshotNumber lastWal,
      loop = { tracker := .new snapshotSize gen1Duration snapshotNumber
               walFileSequenceNumber := lastWal
               lastSnapshottedWalSequenceNumber := lastWal }
  step := flushStep

/-- The steps that lose no row: every snapshot has a marker that separates what it takes, it is
handed over when no other file it covers is in flight, and no flush that fails has issued one. -/
def MarkersSeparate (loop : FlushLoop) : FlushAction → Prop
  | .swap file forceSnapshot =>
    ∀ added ∈ loop.tracker.addWalPeriod file.period, added.MarkerSeparates forceSnapshot
  | .put _ => True
  | .notify index => ∀ flight ∈ loop.inFlight[index]?, ∀ details ∈ flight.contents.snapshot,
      ∀ other ∈ (loop.inFlight.eraseIdx index).map (·.contents),
        details.lastWalSequenceNumber < other.number
  | .giveUp index => ∀ flight ∈ loop.inFlight[index]?, flight.contents.snapshot = none

instance (loop : FlushLoop) (action : FlushAction) : Decidable (MarkersSeparate loop action) := by
  cases action <;> unfold MarkersSeparate <;> infer_instance

/-- The tracker holds the periods of the files that no snapshot covers yet. -/
structure Tracks (loop : FlushLoop) : Prop where
  ordered : loop.begun.Pairwise fun earlier later => earlier.number < later.number
  begun_le : ∀ contents ∈ loop.begun, contents.number ≤ loop.walFileSequenceNumber
  snapshotted_le : loop.lastSnapshottedWalSequenceNumber ≤ loop.walFileSequenceNumber
  periods : loop.tracker.walPeriods =
    (filesAfter loop.lastSnapshottedWalSequenceNumber loop.begun).map (·.period)
  issued_le : ∀ details ∈ loop.issued,
    details.lastWalSequenceNumber ≤ loop.lastSnapshottedWalSequenceNumber ∧
      details.snapshotSequenceNumber ≤ loop.tracker.lastSnapshotSequenceNumber

/-- Each file that was swapped out is in flight, notified or failed, and each row of a notified
file is in the buffer or was moved by one snapshot. -/
structure ConservesFiles (loop : FlushLoop) : Prop where
  files : loop.begun.Perm (loop.flying ++ loop.notified ++ loop.failed)
  rows : (loop.buffer ++ loop.moved.map Prod.fst).Perm (loop.notified.flatMap loop.rowsOf)

variable {loop next : FlushLoop} {file : WalFile} {forceSnapshot : Bool} {index : Nat}
variable {contents : WalContents} {flight : Flight} {details : SnapshotDetails}
variable {tracker : SnapshotTracker}

theorem flushStep_swap (hnext : flushStep loop (.swap file forceSnapshot) = some next) :
    ∃ tracker contents,
      loop.tracker.takeFile contents.file forceSnapshot = some (tracker, contents) ∧
      contents.file = file ∧ loop.walFileSequenceNumber < contents.number ∧
      (∀ other ∈ loop.flying, contents.snapshot = none ∨ other.snapshot = none) ∧
      next = loop.swap tracker contents := by
  obtain ⟨⟨tracker, contents⟩, htake, hnext⟩ := bind_eq_some_iff.mp hnext
  obtain ⟨rfl, -⟩ := takeFile_eq_some htake
  simp only [ite_none_right_eq_some, some.injEq] at hnext
  obtain ⟨⟨hnumber, hpermit⟩, rfl⟩ := hnext
  refine ⟨tracker, contents, htake, rfl, hnumber, fun other hother => ?_, rfl⟩
  cases hsnapshot : contents.snapshot with
  | none => exact .inl rfl
  | some details => exact .inr (hpermit (by simp [hsnapshot]) other hother)

theorem flushStep_notify (hnext : flushStep loop (.notify index) = some next) :
    ∃ flight, loop.inFlight[index]? = some flight ∧ next = loop.notify index flight.contents := by
  obtain ⟨flight, hflight, hnext⟩ := bind_eq_some_iff.mp hnext
  simp only [ite_none_right_eq_some, some.injEq] at hnext
  exact ⟨flight, hflight, hnext.2.symm⟩

theorem flushStep_giveUp (hnext : flushStep loop (.giveUp index) = some next) :
    ∃ flight, loop.inFlight[index]? = some flight ∧ next = loop.giveUp index flight.contents := by
  obtain ⟨flight, hflight, hnext⟩ := bind_eq_some_iff.mp hnext
  simp only [ite_none_left_eq_some, some.injEq] at hnext
  exact ⟨flight, hflight, hnext.2.symm⟩

namespace FlushLoop

theorem flying_swap : (loop.swap tracker contents).flying = loop.flying ++ [contents] :=
  map_append

theorem issued_swap :
    (loop.swap tracker contents).issued = loop.issued ++ contents.snapshot.toList :=
  embedded_concat

theorem rowsOf_swap (htake : loop.tracker.takeFile file forceSnapshot = some (tracker, contents)) :
    (loop.swap tracker contents).rowsOf = loop.rowsOf := by
  unfold rowsOf
  rw [← gen1Duration_takeFile htake]
  rfl

end FlushLoop

/-- A put changes nothing about which files are in flight. -/
theorem flushStep_put (hnext : flushStep loop (.put index) = some next) :
    ∃ inFlight, inFlight.map (·.contents) = loop.flying ∧
      next = { loop with inFlight := inFlight } := by
  obtain ⟨flight, hflight, hput⟩ := bind_eq_some_iff.mp hnext
  refine ⟨_, ?_, (some.inj hput).symm⟩
  rw [FlushLoop.flying]
  apply ext_getElem <;> grind

theorem flying_perm (hflight : loop.inFlight[index]? = some flight) :
    loop.flying.Perm (flight.contents :: (loop.inFlight.eraseIdx index).map (·.contents)) := by
  obtain ⟨hlt, rfl⟩ := List.getElem?_eq_some_iff.mp hflight
  exact ((getElem_cons_eraseIdx_perm hlt).map Flight.contents).symm

/-- The file and its rows go from the flights to the write buffer, and the rows below the marker
of its snapshot from there to the snapshot. -/
theorem notify_eq (loop : FlushLoop) (index : Nat) (contents : WalContents) :
    ∃ kept taken, loop.notify index contents = { loop with
        buffer := kept
        inFlight := loop.inFlight.eraseIdx index
        notified := loop.notified ++ [contents]
        moved := loop.moved ++ taken } ∧
      (kept ++ taken.map Prod.fst).Perm (loop.buffer ++ loop.rowsOf contents) ∧
      (∀ entry ∈ taken, entry.2 ∈ contents.snapshot ∧ entry.1.chunkTime < entry.2.endTimeMarker) ∧
      ∀ details ∈ contents.snapshot, ∀ buffered ∈ kept,
        ¬buffered.chunkTime < details.endTimeMarker := by
  cases hsnapshot : contents.snapshot with
  | none =>
    refine ⟨loop.buffer ++ loop.rowsOf contents, [], ?_, by simp, by simp, by simp⟩
    simp [FlushLoop.notify, hsnapshot]
  | some details =>
    refine ⟨_, _, by rw [FlushLoop.notify, hsnapshot], ?_, ?_, ?_⟩
    · simp only [tableBufferSnapshot, partition_eq_filter_filter, List.map_map, Function.comp_def,
        List.map_id']
      exact perm_append_comm.trans (filter_append_perm _ _)
    · intro entry hentry
      obtain ⟨buffered, hbuffered, rfl⟩ := mem_map.mp hentry
      simp only [tableBufferSnapshot, partition_eq_filter_filter, mem_filter] at hbuffered
      exact ⟨rfl, by simpa using hbuffered.2⟩
    · rintro _ ⟨⟩ buffered hbuffered
      simp only [tableBufferSnapshot, partition_eq_filter_filter, mem_filter] at hbuffered
      simpa using hbuffered.2

theorem Tracks.swap (htracks : Tracks loop)
    (htake : loop.tracker.takeFile contents.file forceSnapshot = some (tracker, contents))
    (hnumber : loop.walFileSequenceNumber < contents.number) :
    Tracks (loop.swap tracker contents) := by
  obtain ⟨-, added, hadded, hcases⟩ := takeFile_eq_some htake
  have hpending : Pending loop.tracker loop.lastSnapshottedWalSequenceNumber
    loop.tracker.lastSnapshotSequenceNumber loop.begun := ⟨htracks.periods, rfl⟩
  have hadd := hpending.addWalPeriod (htracks.snapshotted_le.trans_lt hnumber) hadded
  have hordered := ordered_concat htracks.ordered fun earlier hearlier =>
    (htracks.begun_le earlier hearlier).trans_lt hnumber
  have hbegun : ∀ other ∈ loop.begun ++ [contents], other.number ≤ contents.number :=
    forall_mem_concat.mpr ⟨fun other hother =>
      (htracks.begun_le other hother).trans hnumber.le, le_rfl⟩
  rcases hcases with ⟨hnone, -, rfl⟩ | ⟨details, hsome, hsnapshot⟩
  · refine ⟨hordered, hbegun, ?_, ?_, ?_⟩
    · simpa [FlushLoop.swap, hnone] using htracks.snapshotted_le.trans hnumber.le
    · simpa [FlushLoop.swap, hnone] using hadd.periods
    · rw [FlushLoop.issued_swap, hnone, toList_none, append_nil]
      simpa [FlushLoop.swap, hnone, hadd.number] using htracks.issued_le
  · obtain ⟨hafter, hnext, ⟨last, hlast, hself⟩, hissue⟩ := hadd.issue hordered hsnapshot
    refine ⟨hordered, hbegun, ?_, ?_, ?_⟩
    · simpa [FlushLoop.swap, hsome, ← hself] using hbegun last hlast
    · simpa [FlushLoop.swap, hsome] using hissue.periods
    · rw [FlushLoop.issued_swap, hsome]
      simp only [FlushLoop.swap, hsome, map_some, getD_some, hissue.number]
      refine forall_mem_concat.mpr ⟨fun other hother => ?_, le_rfl, le_rfl⟩
      have := htracks.issued_le other hother
      omega

theorem Tracks.step {action : FlushAction} (htracks : Tracks loop)
    (hnext : flushStep loop action = some next) : Tracks next := by
  cases action with
  | swap file forceSnapshot =>
    obtain ⟨tracker, contents, htake, -, hnumber, -, rfl⟩ := flushStep_swap hnext
    exact htracks.swap htake hnumber
  | put index =>
    obtain ⟨inFlight, -, rfl⟩ := flushStep_put hnext
    exact { htracks with }
  | notify index =>
    obtain ⟨flight, -, rfl⟩ := flushStep_notify hnext
    obtain ⟨kept, taken, heq, -⟩ := notify_eq loop index flight.contents
    exact heq ▸ { htracks with }
  | giveUp index =>
    obtain ⟨flight, -, rfl⟩ := flushStep_giveUp hnext
    exact { htracks with
      begun_le := fun file hfile => (htracks.begun_le file hfile).trans (Nat.le_succ _)
      snapshotted_le := htracks.snapshotted_le.trans (Nat.le_succ _) }

/-- The file of a flight that ends is notified or failed in its place. -/
theorem ConservesFiles.files_erase (hconserves : ConservesFiles loop)
    (hflight : loop.inFlight[index]? = some flight) :
    loop.begun.Perm ((loop.inFlight.eraseIdx index).map (·.contents) ++
      (loop.notified ++ [flight.contents]) ++ loop.failed) := by
  refine perm_iff_count.mpr fun contents => ?_
  rw [hconserves.files.count_eq, count_append, count_append, (flying_perm hflight).count_eq]
  simp only [count_append, count_cons, count_nil]
  omega

theorem ConservesFiles.step {action : FlushAction} (hconserves : ConservesFiles loop)
    (hnext : flushStep loop action = some next) : ConservesFiles next := by
  cases action with
  | swap file forceSnapshot =>
    obtain ⟨tracker, contents, htake, -, -, -, rfl⟩ := flushStep_swap hnext
    refine ⟨?_, ?_⟩
    · rw [FlushLoop.flying_swap]
      refine perm_iff_count.mpr fun other => ?_
      have hcount := hconserves.files.count_eq other
      simp only [FlushLoop.swap, count_append] at hcount ⊢
      omega
    · rw [FlushLoop.rowsOf_swap htake]
      exact hconserves.rows
  | put index =>
    obtain ⟨inFlight, hsame, rfl⟩ := flushStep_put hnext
    exact ⟨by simpa only [FlushLoop.flying, hsame] using hconserves.files, hconserves.rows⟩
  | notify index =>
    obtain ⟨flight, hflight, rfl⟩ := flushStep_notify hnext
    obtain ⟨kept, taken, heq, hperm, -⟩ := notify_eq loop index flight.contents
    rw [heq]
    refine ⟨hconserves.files_erase hflight, ?_⟩
    have hrows := hconserves.rows
    refine perm_iff_count.mpr fun buffered => ?_
    have hcount := hrows.count_eq buffered
    have htaken := hperm.count_eq buffered
    simp only [map_append, flatMap_append, flatMap_singleton, count_append] at hcount htaken ⊢
    change _ = count _ (loop.notified.flatMap loop.rowsOf) + count _ (loop.rowsOf _)
    omega
  | giveUp index =>
    obtain ⟨flight, hflight, rfl⟩ := flushStep_giveUp hnext
    refine ⟨(hconserves.files_erase hflight).trans (perm_iff_count.mpr fun other => ?_),
      hconserves.rows⟩
    simp only [FlushLoop.giveUp, FlushLoop.flying, count_append]
    omega

/-- A file that a snapshot covers has only rows below the marker of the first one that does. -/
def TakenBelow (loop : FlushLoop) : Prop :=
  ∀ contents ∈ loop.begun, contents.number ≤ loop.lastSnapshottedWalSequenceNumber →
    ∀ buffered ∈ loop.rowsOf contents, ∃ first ∈ loop.issued,
      contents.number ≤ first.lastWalSequenceNumber ∧ buffered.chunkTime < first.endTimeMarker ∧
      ∀ details ∈ loop.issued, contents.number ≤ details.lastWalSequenceNumber →
        first.snapshotSequenceNumber ≤ details.snapshotSequenceNumber

/-- The marker of a new snapshot is above the files it covers and those before it did not. -/
theorem TakenBelow.swap (htaken : TakenBelow loop) (htracks : Tracks loop)
    (hallowed : MarkersSeparate loop (.swap contents.file forceSnapshot))
    (htake : loop.tracker.takeFile contents.file forceSnapshot = some (tracker, contents))
    (hnumber : loop.walFileSequenceNumber < contents.number) :
    TakenBelow (loop.swap tracker contents) := by
  obtain ⟨-, added, hadded, hcases⟩ := takeFile_eq_some htake
  have hafter := htracks.snapshotted_le.trans_lt hnumber
  rw [TakenBelow, FlushLoop.issued_swap, FlushLoop.rowsOf_swap htake]
  rcases hcases with ⟨hnone, -⟩ | ⟨details, hsome, hsnapshot⟩
  · simp only [FlushLoop.swap, hnone, toList_none, append_nil]
    exact forall_mem_concat.mpr ⟨htaken, fun hle => absurd hle (not_le.mpr hafter)⟩
  · have hordered := (htracks.swap htake hnumber).ordered
    have hadd := (Pending.mk htracks.periods rfl).addWalPeriod hafter hadded
    obtain ⟨-, hseq, -⟩ := hadd.issue hordered hsnapshot
    simp only [FlushLoop.swap, hsome, toList_some]
    intro other hother hle buffered hbuffered
    by_cases hnew : loop.lastSnapshottedWalSequenceNumber < other.number
    · refine ⟨details, mem_concat_self, hle, ?_, forall_mem_concat.mpr ⟨?_, fun _ => le_rfl⟩⟩
      · obtain ⟨row, hrow, rfl⟩ := mem_map.mp hbuffered
        have hend := hadd.separates hordered (hallowed added hadded) hsnapshot
          (mem_filesAfter.mpr ⟨hother, hnew⟩) hle
        have hmono := truncateTo_mono added.gen1Duration.asNanos_pos
          (other.file.rows_within row hrow).2
        rw [addWalPeriod_eq_some hadded] at hend hmono
        exact hmono.trans_lt hend
      · intro earlier hearlier hcovers
        have := (htracks.issued_le earlier hearlier).1
        omega
    · have hbegun : other ∈ loop.begun := by
        rcases mem_concat.mp hother with hmem | rfl
        · exact hmem
        · exact absurd hafter hnew
      obtain ⟨first, hfirst, hcovers, hbelow, hleast⟩ :=
        htaken other hbegun (not_lt.mp hnew) buffered hbuffered
      refine ⟨first, mem_append_left _ hfirst, hcovers, hbelow, ?_⟩
      refine forall_mem_concat.mpr ⟨hleast, fun _ => ?_⟩
      have := (htracks.issued_le first hfirst).2
      omega

/-- At most one file in flight has a snapshot, the newest, and none is covered by a snapshot that
the write buffer took. What the write buffer was told of is moved once it is covered. -/
structure KeepsRows (loop : FlushLoop) : Prop where
  tracks : Tracks loop
  conserves : ConservesFiles loop
  taken : TakenBelow loop
  alone : loop.flying.Pairwise fun a b => a.snapshot = none ∨ b.snapshot = none
  newest : ∀ contents ∈ loop.flying, ∀ details ∈ contents.snapshot,
    details.snapshotSequenceNumber = loop.tracker.lastSnapshotSequenceNumber
  failed : ∀ contents ∈ loop.failed, contents.snapshot = none
  handed_lt : ∀ details ∈ loop.handed, ∀ contents ∈ loop.flying,
    details.lastWalSequenceNumber < contents.number
  moved_by : ∀ entry ∈ loop.moved,
    entry.2 ∈ loop.handed ∧ entry.1.chunkTime < entry.2.endTimeMarker
  moved : ∀ details ∈ loop.handed, ∀ contents ∈ loop.notified,
    contents.number ≤ details.lastWalSequenceNumber → ∀ buffered ∈ loop.rowsOf contents,
      ∃ earlier ∈ loop.handed,
        earlier.snapshotSequenceNumber ≤ details.snapshotSequenceNumber ∧
          (buffered, earlier) ∈ loop.moved

theorem ConservesFiles.mem_begun (hconserves : ConservesFiles loop) :
    contents ∈ loop.begun ↔
      contents ∈ loop.flying ∨ contents ∈ loop.notified ∨ contents ∈ loop.failed := by
  rw [hconserves.files.mem_iff, append_assoc, mem_append, mem_append]

theorem KeepsRows.handed_issued (hkeeps : KeepsRows loop) (hdetails : details ∈ loop.handed) :
    details ∈ loop.issued := by
  obtain ⟨contents, hcontents, hsome⟩ := mem_embedded.mp hdetails
  exact mem_embedded.mpr ⟨contents, hkeeps.conserves.mem_begun.mpr (.inr (.inl hcontents)), hsome⟩

theorem KeepsRows.swap (hkeeps : KeepsRows loop)
    (hallowed : MarkersSeparate loop (.swap file forceSnapshot))
    (hnext : flushStep loop (.swap file forceSnapshot) = some next) : KeepsRows next := by
  have hconserves := hkeeps.conserves.step hnext
  obtain ⟨tracker, contents, htake, rfl, hnumber, hfree, rfl⟩ := flushStep_swap hnext
  have htracks := hkeeps.tracks.swap htake hnumber
  refine ⟨htracks, hconserves, hkeeps.taken.swap hkeeps.tracks hallowed htake hnumber, ?_, ?_,
    hkeeps.failed, ?_, hkeeps.moved_by, ?_⟩
  · rw [FlushLoop.flying_swap]
    exact pairwise_concat.mpr ⟨hkeeps.alone, fun other hother => (hfree other hother).symm⟩
  · obtain ⟨-, added, hadded, hcases⟩ := takeFile_eq_some htake
    rw [FlushLoop.flying_swap]
    rcases hcases with ⟨hnone, -, rfl⟩ | ⟨details, hsome, hsnapshot⟩
    · refine forall_mem_concat.mpr ⟨?_, by simp [hnone]⟩
      rw [FlushLoop.swap, addWalPeriod_eq_some hadded]
      exact hkeeps.newest
    · refine forall_mem_concat.mpr ⟨fun other hother => ?_, fun issued hissued => ?_⟩
      · simp [(hfree other hother).resolve_left (by simp [hsome])]
      · have hadd := (Pending.mk hkeeps.tracks.periods rfl).addWalPeriod
          (hkeeps.tracks.snapshotted_le.trans_lt hnumber) hadded
        obtain rfl := some.inj (hsome.symm.trans hissued)
        exact (hadd.issue htracks.ordered hsnapshot).2.2.2.number.symm
  · intro details hdetails
    rw [FlushLoop.flying_swap]
    refine forall_mem_concat.mpr ⟨hkeeps.handed_lt details hdetails, ?_⟩
    have hle := (hkeeps.tracks.issued_le details (hkeeps.handed_issued hdetails)).1
    exact (hle.trans hkeeps.tracks.snapshotted_le).trans_lt hnumber
  · rw [FlushLoop.rowsOf_swap htake]
    exact hkeeps.moved

theorem KeepsRows.put (hkeeps : KeepsRows loop)
    (hnext : flushStep loop (.put index) = some next) : KeepsRows next := by
  have hconserves := hkeeps.conserves.step hnext
  obtain ⟨inFlight, hsame, rfl⟩ := flushStep_put hnext
  refine ⟨{ hkeeps.tracks with }, hconserves, hkeeps.taken, ?_, ?_, hkeeps.failed, ?_,
    hkeeps.moved_by, hkeeps.moved⟩
  all_goals rw [FlushLoop.flying, hsame]
  · exact hkeeps.alone
  · exact hkeeps.newest
  · exact hkeeps.handed_lt

theorem KeepsRows.giveUp (hkeeps : KeepsRows loop)
    (hallowed : MarkersSeparate loop (.giveUp index))
    (hnext : flushStep loop (.giveUp index) = some next) : KeepsRows next := by
  have htracks := hkeeps.tracks.step hnext
  have hconserves := hkeeps.conserves.step hnext
  obtain ⟨flight, hflight, rfl⟩ := flushStep_giveUp hnext
  have hsub : (loop.giveUp index flight.contents).flying.Sublist loop.flying :=
    (eraseIdx_sublist ..).map _
  exact { hkeeps with
    tracks := htracks
    conserves := hconserves
    alone := hkeeps.alone.sublist hsub
    newest := fun contents hcontents => hkeeps.newest contents (hsub.subset hcontents)
    failed := forall_mem_concat.mpr ⟨hkeeps.failed, hallowed flight hflight⟩
    handed_lt := fun details hdetails contents hcontents =>
      hkeeps.handed_lt details hdetails contents (hsub.subset hcontents) }

/-- A row that the snapshot of a file in flight covers is below its marker, unless its file is
within a snapshot that the write buffer took. -/
theorem KeepsRows.below_or_handed (hkeeps : KeepsRows loop) {holder : WalContents}
    (hholder : holder ∈ loop.flying) (hself : details ∈ holder.snapshot)
    (hcontents : contents ∈ loop.begun) (hle : contents.number ≤ details.lastWalSequenceNumber)
    {buffered : BufferedRow} (hbuffered : buffered ∈ loop.rowsOf contents) :
    buffered.chunkTime < details.endTimeMarker ∨
      ∃ first ∈ loop.handed, contents.number ≤ first.lastWalSequenceNumber := by
  have hissued : details ∈ loop.issued :=
    mem_embedded.mpr ⟨_, hkeeps.conserves.mem_begun.mpr (.inl hholder), hself⟩
  obtain ⟨first, hfirst, hcovers, hbelow, -⟩ := hkeeps.taken contents hcontents
    (hle.trans (hkeeps.tracks.issued_le details hissued).1) buffered hbuffered
  obtain ⟨carrier, hcarrier, hcarries⟩ := mem_embedded.mp hfirst
  rcases hkeeps.conserves.mem_begun.mp hcarrier with hmem | hmem | hmem
  · -- The first snapshot that covers the file is this one.
    left
    by_cases hsame : carrier = holder
    · rw [hsame] at hcarries
      rwa [mem_unique hself hcarries]
    · have : Std.Symm fun a b : WalContents => a.snapshot = none ∨ b.snapshot = none :=
        ⟨fun _ _ => Or.symm⟩
      have hpair := hkeeps.alone.forall hmem hholder hsame
      simp [hcarries, mem_def.mp hself] at hpair
  · exact .inr ⟨first, mem_embedded.mpr ⟨_, hmem, hcarries⟩, hcovers⟩
  · simp [hkeeps.failed carrier hmem] at hcarries

theorem KeepsRows.notify (hkeeps : KeepsRows loop)
    (hallowed : MarkersSeparate loop (.notify index))
    (hnext : flushStep loop (.notify index) = some next) : KeepsRows next := by
  have htracks := hkeeps.tracks.step hnext
  have hconserves := hkeeps.conserves.step hnext
  obtain ⟨flight, hflight, rfl⟩ := flushStep_notify hnext
  obtain ⟨kept, taken, heq, -, htaken, hkept⟩ := notify_eq loop index flight.contents
  rw [heq] at htracks hconserves ⊢
  have hsub : ((loop.inFlight.eraseIdx index).map (·.contents)).Sublist loop.flying :=
    (eraseIdx_sublist ..).map _
  have hflying : flight.contents ∈ loop.flying := mem_map_of_mem (mem_of_getElem? hflight)
  have hhanded : embedded (loop.notified ++ [flight.contents]) =
      loop.handed ++ flight.contents.snapshot.toList := embedded_concat
  have hearlier : ∀ details ∈ flight.contents.snapshot, ∀ other ∈ loop.handed,
      other.snapshotSequenceNumber ≤ details.snapshotSequenceNumber := by
    intro details hdetails other hother
    rw [hkeeps.newest _ hflying details hdetails]
    exact (hkeeps.tracks.issued_le other (hkeeps.handed_issued hother)).2
  have hmovedby : ∀ entry ∈ loop.moved ++ taken,
      entry.2 ∈ loop.handed ++ flight.contents.snapshot.toList ∧
        entry.1.chunkTime < entry.2.endTimeMarker := by
    intro entry hentry
    rcases mem_append.mp hentry with hold | hnew
    · exact (hkeeps.moved_by entry hold).imp_left (mem_append_left _)
    · exact (htaken entry hnew).imp_left fun h => mem_append_right _ (by simpa using h)
  have hold : ∀ details ∈ loop.handed, ∀ contents ∈ loop.notified ++ [flight.contents],
      contents.number ≤ details.lastWalSequenceNumber → ∀ buffered ∈ loop.rowsOf contents,
        ∃ earlier ∈ loop.handed,
          earlier.snapshotSequenceNumber ≤ details.snapshotSequenceNumber ∧
            (buffered, earlier) ∈ loop.moved := by
    intro details hdetails
    refine forall_mem_concat.mpr ⟨hkeeps.moved details hdetails, fun hle => ?_⟩
    exact absurd hle (not_le.mpr (hkeeps.handed_lt details hdetails _ hflying))
  refine ⟨htracks, hconserves, hkeeps.taken, hkeeps.alone.sublist hsub,
    fun contents hcontents => hkeeps.newest contents (hsub.subset hcontents), hkeeps.failed,
    ?_, ?_, ?_⟩
  · simp only [FlushLoop.handed, hhanded, mem_append, mem_toList]
    rintro details (hmem | hself) contents hcontents
    · exact hkeeps.handed_lt details hmem contents (hsub.subset hcontents)
    · exact hallowed flight hflight details hself contents hcontents
  · simpa only [FlushLoop.handed, hhanded] using hmovedby
  · simp only [FlushLoop.handed, hhanded, mem_append, mem_toList]
    rintro details (hmem | hself) contents hcontents hle buffered hbuffered
    · obtain ⟨earlier, hearly, hseq, hmoved⟩ := hold details hmem contents
        (mem_append.mpr hcontents) hle buffered hbuffered
      exact ⟨earlier, .inl hearly, hseq, .inl hmoved⟩
    have hcontents := mem_append.mpr hcontents
    have hbegun : contents ∈ loop.begun := by
      rcases mem_concat.mp hcontents with hmem | rfl
      · exact hkeeps.conserves.mem_begun.mpr (.inr (.inl hmem))
      · exact hkeeps.conserves.mem_begun.mpr (.inl hflying)
    rcases hkeeps.below_or_handed hflying hself hbegun hle hbuffered with hbelow |
      ⟨first, hfirst, hcovers⟩
    · have hheld : buffered ∈ kept ++ (loop.moved ++ taken).map Prod.fst :=
        hconserves.rows.mem_iff.mpr (mem_flatMap.mpr ⟨contents, hcontents, hbuffered⟩)
      rcases mem_append.mp hheld with hin | hout
      · exact absurd hbelow (hkept details hself buffered hin)
      · obtain ⟨⟨_, by_⟩, hentry, rfl⟩ := List.mem_map.mp hout
        have hby := (hmovedby _ hentry).1
        simp only [mem_append, mem_toList] at hby hentry
        refine ⟨by_, hby, ?_, hentry⟩
        rcases hby with hold | hnew
        · exact hearlier details hself by_ hold
        · rw [mem_unique hnew hself]
    · obtain ⟨earlier, hearly, -, hmoved⟩ :=
        hold first hfirst contents hcontents hcovers buffered hbuffered
      exact ⟨earlier, .inl hearly, hearlier details hself earlier hearly, .inl hmoved⟩

theorem tracks_and_conserves_initial (hinitial : flushMachine.initial loop) :
    Tracks loop ∧ ConservesFiles loop := by
  obtain ⟨_, _, _, _, rfl⟩ := hinitial
  exact ⟨⟨by simp, by simp, le_rfl, rfl, by simp [embedded]⟩, .refl _, .refl _⟩

/-- A write buffer that has seen no write, with a gen1 duration of one minute and a snapshot
size of one WAL file. -/
def freshLoop : FlushLoop where
  tracker := .new 1 .new1m none
  walFileSequenceNumber := 0
  lastSnapshottedWalSequenceNumber := 0

theorem freshLoop_reachable {allowed : FlushLoop → FlushAction → Prop} :
    flushMachine.Reachable allowed freshLoop :=
  .initial ⟨1, .new1m, none, 0, rfl⟩

/-- The parts of a flush beside which no other runs. -/
def FlushAction.whole (file : WalFile) (forceSnapshot : Bool) : List FlushAction :=
  [.swap file forceSnapshot, .put 0, .notify 0]

/-- In every run, with overlapping and failing flushes and whatever the markers, the tracker has the
periods of the uncovered files, and no file and no row is lost or counted twice. -/
theorem tracks_and_conserves (hreachable : flushMachine.Reachable Machine.Unrestricted loop) :
    Tracks loop ∧ ConservesFiles loop := by
  induction hreachable with
  | initial hinitial => exact tracks_and_conserves_initial hinitial
  | step _ _ hnext ih => exact ⟨ih.1.step hnext, ih.2.step hnext⟩

/-- One flush fails, one is moved by the snapshot of a third, and a fourth is in flight. -/
theorem tracks_and_conserves_moved :
    ∃ loop, flushMachine.Reachable Machine.Unrestricted loop ∧
      (loop.failed ≠ [] ∧ loop.moved ≠ [] ∧ loop.inFlight ≠ []) ∧
      Tracks loop ∧ ConservesFiles loop := by
  refine freshLoop_reachable.exists_of_exec_and
    ([.swap (singleRowFile 1 1) false, .swap (singleRowFile 2 2) false, .put 0, .giveUp 1,
      .notify 0] ++ FlushAction.whole (singleRowFile 4 3) true ++ [.swap (singleRowFile 5 4) false])
    _ (Machine.meets_unrestricted _ _ _) (by decide) ?_
  exact fun loop hreachable => tracks_and_conserves hreachable

end RefluxDb.Wal
