import Mathlib.Data.List.Induction
import Mathlib.Data.List.Pairwise
import RefluxDb.Wal.SnapshotTracker

/-! The WAL files of a node in the order they became durable, with the snapshots embedded in them.

A flush has three parts. Under a lock the filled buffer is swapped out, its period goes to the
tracker and the tracker may issue a snapshot; then the file is put, with the snapshot embedded in
it; at last the write buffer is told of the rows and takes the snapshot, whose marker is handed to
`TableBuffer::snapshot`.

What a process knows after it has seen some first files is a function of the list of files: the
number of the last embedded snapshot, the last file it takes, and the files after that one, which
are pending. The files may come from processes with different snapshot sizes and gen1 durations. -/

namespace RefluxDb.Wal

open List RefluxDb.Library SnapshotTracker

structure WalRow where
  table : Nat
  time : Int
deriving DecidableEq

/-- A WAL file with its rows, all inside the file's time range. -/
structure WalFile where
  number : Nat
  minTime : Int
  maxTime : Int
  rows : List WalRow
  rows_within : ∀ row ∈ rows, minTime ≤ row.time ∧ row.time ≤ maxTime
deriving DecidableEq

def WalFile.period (file : WalFile) : WalPeriod where
  walFileNumber := file.number
  minTime := file.minTime
  maxTime := file.maxTime

structure WalContents where
  file : WalFile
  snapshot : Option SnapshotDetails
deriving DecidableEq

/-- A row of the write buffer, with the WAL file it came from and the key of its chunk. -/
structure BufferedRow where
  walFileNumber : Nat
  row : WalRow
  chunkTime : Int
deriving DecidableEq

def WalFile.bufferedRow (file : WalFile) (duration : Gen1Duration) (row : WalRow) :
    BufferedRow where
  walFileNumber := file.number
  row := row
  chunkTime := duration.chunkTimeForTimestamp row.time

def WalFile.bufferedRows (file : WalFile) (duration : Gen1Duration) : List BufferedRow :=
  file.rows.map (file.bufferedRow duration)

/-- The part of a flush under the lock, but for the permit that a snapshot waits for. -/
def SnapshotTracker.takeFile (tracker : SnapshotTracker) (file : WalFile) (forceSnapshot : Bool) :
    Option (SnapshotTracker × WalContents) :=
  (tracker.addWalPeriod file.period).map fun added =>
    match added.snapshot forceSnapshot with
    | none => (added, ⟨file, none⟩)
    | some (details, next) => (next, ⟨file, some details⟩)

/-- A flush under way: its file has left the WAL buffer and the write buffer was not told of it.
`stored` is whether the put is done. -/
structure Flight where
  contents : WalContents
  stored : Bool
deriving DecidableEq

/-- The chunks `TableBuffer::snapshot` removes, and those it keeps. -/
def tableBufferSnapshot (buffer : List BufferedRow) (olderThanChunkTime : Int) :
    List BufferedRow × List BufferedRow :=
  buffer.partition fun buffered => decide (buffered.chunkTime < olderThanChunkTime)

def singleRowFile (number : Nat) (time : Int) : WalFile where
  number := number
  minTime := time
  maxTime := time
  rows := [⟨0, time⟩]
  rows_within := by simp

namespace WalContents

def number (contents : WalContents) : Nat := contents.file.number

def maxTime (contents : WalContents) : Int := contents.file.maxTime

def period (contents : WalContents) : WalPeriod := contents.file.period

@[simp]
theorem walFileNumber_period (contents : WalContents) :
    contents.period.walFileNumber = contents.number := rfl

@[simp]
theorem maxTime_period (contents : WalContents) : contents.period.maxTime = contents.maxTime := rfl

end WalContents

def embedded (files : List WalContents) : List SnapshotDetails := files.filterMap (·.snapshot)

/-- The last file that the last embedded snapshot takes. -/
def lastTaken (files : List WalContents) : Nat :=
  ((embedded files).getLast?.map (·.lastWalSequenceNumber)).getD 0

/-- The number of the last embedded snapshot. -/
def lastIssued (files : List WalContents) : Nat :=
  ((embedded files).getLast?.map (·.snapshotSequenceNumber)).getD 0

def filesAfter (base : Nat) (files : List WalContents) : List WalContents :=
  files.filter fun contents => decide (base < contents.number)

/-- What holds of a snapshot that is embedded in `contents`, the file after `files`, whatever the
configuration it was issued under: it takes pending files, and where it is not forced, its marker
lies between the files it takes and the first one it leaves. -/
structure Embeds (files : List WalContents) (contents : WalContents) (details : SnapshotDetails) :
    Prop where
  number : details.snapshotSequenceNumber = lastIssued files + 1
  after : lastTaken files < details.lastWalSequenceNumber
  last_mem : ∃ taken ∈ files ++ [contents], taken.number = details.lastWalSequenceNumber
  forced : details.forced = true → details.lastWalSequenceNumber = contents.number
  taken : details.forced = false → ∀ taken ∈ filesAfter (lastTaken files) (files ++ [contents]),
    taken.number ≤ details.lastWalSequenceNumber → taken.maxTime < details.endTimeMarker
  stop : details.forced = false →
    ∀ kept ∈ (filesAfter details.lastWalSequenceNumber (files ++ [contents])).head?,
      details.endTimeMarker ≤ kept.maxTime

/-- Files numbered upward, each with a snapshot issued in its turn. -/
inductive Chronicle : List WalContents → Prop
  | nil : Chronicle []
  | snoc {files : List WalContents} {contents : WalContents} (hfiles : Chronicle files)
      (hnumber : ∀ earlier ∈ files, earlier.number < contents.number)
      (hembeds : ∀ details ∈ contents.snapshot, Embeds files contents details) :
      Chronicle (files ++ [contents])

section Lists

variable {files more : List WalContents} {contents : WalContents} {details : SnapshotDetails}
variable {base : Nat}

theorem embedded_append : embedded (files ++ more) = embedded files ++ embedded more :=
  filterMap_append

theorem embedded_concat : embedded (files ++ [contents]) =
    embedded files ++ contents.snapshot.toList := by
  cases hsnapshot : contents.snapshot <;> simp [embedded, hsnapshot]

theorem mem_embedded : details ∈ embedded files ↔
    ∃ contents ∈ files, contents.snapshot = some details :=
  mem_filterMap

theorem lastTaken_concat_none (hsnapshot : contents.snapshot = none) :
    lastTaken (files ++ [contents]) = lastTaken files := by
  simp [lastTaken, embedded_concat, hsnapshot]

theorem lastIssued_concat_none (hsnapshot : contents.snapshot = none) :
    lastIssued (files ++ [contents]) = lastIssued files := by
  simp [lastIssued, embedded_concat, hsnapshot]

theorem lastTaken_concat_some (hsnapshot : contents.snapshot = some details) :
    lastTaken (files ++ [contents]) = details.lastWalSequenceNumber := by
  simp [lastTaken, embedded_concat, hsnapshot]

theorem lastIssued_concat_some (hsnapshot : contents.snapshot = some details) :
    lastIssued (files ++ [contents]) = details.snapshotSequenceNumber := by
  simp [lastIssued, embedded_concat, hsnapshot]

theorem mem_filesAfter : contents ∈ filesAfter base files ↔
    contents ∈ files ∧ base < contents.number := by
  simp [filesAfter]

theorem filesAfter_append : filesAfter base (files ++ more) =
    filesAfter base files ++ filesAfter base more :=
  filter_append ..

theorem filesAfter_concat (hafter : base < contents.number) :
    filesAfter base (files ++ [contents]) = filesAfter base files ++ [contents] := by
  simp [filesAfter, hafter]

theorem filesAfter_filesAfter {higher : Nat} (hle : base ≤ higher) :
    filesAfter higher (filesAfter base files) = filesAfter higher files := by
  unfold filesAfter
  rw [filter_filter]
  apply filter_congr
  intro contents _
  rw [Bool.and_eq_left_iff_imp]
  simp only [decide_eq_true_eq]
  omega

section

variable (hfiles : files.Pairwise fun earlier later => earlier.number < later.number)
include hfiles

theorem ordered_concat (hnumber : ∀ earlier ∈ files, earlier.number < contents.number) :
    (files ++ [contents]).Pairwise fun earlier later => earlier.number < later.number :=
  pairwise_concat.mpr ⟨hfiles, hnumber⟩

theorem head_le_of_mem
    {first later : WalContents} (hfirst : files.head? = some first) (hlater : later ∈ files) :
    first.number ≤ later.number := by
  obtain ⟨rest, rfl⟩ := head?_eq_some_iff.mp hfirst
  rcases mem_cons.mp hlater with rfl | hmem
  · exact le_rfl
  · exact ((pairwise_cons.mp hfiles).1 later hmem).le

theorem head_le {first later : WalContents} (hfirst : (filesAfter base files).head? = some first)
    (hlater : later ∈ filesAfter base files) : first.number ≤ later.number :=
  head_le_of_mem (hfiles.filter _) hfirst hlater

/-- In number order, the files up to `base` come before the ones after it. -/
theorem split_at (base : Nat) :
    files = files.filter (fun contents => decide (contents.number ≤ base)) ++
      filesAfter base files := by
  induction files with
  | nil => rfl
  | cons first rest ih =>
    obtain ⟨hfirst, hrest⟩ := pairwise_cons.mp hfiles
    by_cases hle : first.number ≤ base
    · simp only [filesAfter, filter_cons, hle, not_lt.mpr hle, decide_true, decide_false,
        if_true, Bool.false_eq_true, if_false, cons_append]
      exact congrArg (first :: ·) (ih hrest)
    · have hnone : rest.filter (fun contents => decide (contents.number ≤ base)) = [] := by
        rw [filter_eq_nil_iff]
        intro contents hcontents
        have := hfirst contents hcontents
        simp only [decide_eq_true_eq]
        omega
      have hrest := ih hrest
      rw [hnone] at hrest
      simp only [filesAfter, filter_cons, hle, not_le.mp hle, decide_true, decide_false,
        if_true, Bool.false_eq_true, if_false, hnone, nil_append]
      exact congrArg (first :: ·) hrest

end

theorem exists_head (hcontents : contents ∈ filesAfter base files) :
    ∃ first, (filesAfter base files).head? = some first :=
  ⟨_, head?_eq_some_head (ne_nil_of_mem hcontents)⟩

/-- Either no snapshot is embedded, or the last one is `details`. -/
theorem embedded_cases (files : List WalContents) :
    (embedded files = [] ∧ lastTaken files = 0 ∧ lastIssued files = 0) ∨
      ∃ details ∈ embedded files, lastTaken files = details.lastWalSequenceNumber ∧
        lastIssued files = details.snapshotSequenceNumber := by
  cases hlast : (embedded files).getLast? with
  | none =>
    exact .inl ⟨getLast?_eq_none_iff.mp hlast, by simp [lastTaken, hlast],
      by simp [lastIssued, hlast]⟩
  | some details =>
    exact .inr ⟨details, mem_of_getLast? hlast, by simp [lastTaken, hlast],
      by simp [lastIssued, hlast]⟩

end Lists

namespace Chronicle

variable {files more : List WalContents} {contents : WalContents} {details : SnapshotDetails}

theorem ordered (hfiles : Chronicle files) :
    files.Pairwise fun earlier later => earlier.number < later.number := by
  induction hfiles with
  | nil => exact .nil
  | snoc _ hnumber _ ih => exact ordered_concat ih hnumber

theorem of_append (hfiles : Chronicle (files ++ more)) : Chronicle files := by
  induction more using List.reverseRecOn with
  | nil => simpa using hfiles
  | append_singleton more contents ih =>
    rw [← append_assoc] at hfiles
    generalize hall : files ++ more ++ [contents] = all at hfiles
    cases hfiles with
    | nil => simp at hall
    | snoc hfiles _ _ =>
      rw [← (append_inj' hall rfl).1] at hfiles
      exact ih hfiles

theorem concat_iff : Chronicle (files ++ [contents]) ↔
    Chronicle files ∧ (∀ earlier ∈ files, earlier.number < contents.number) ∧
      ∀ details ∈ contents.snapshot, Embeds files contents details := by
  constructor
  · intro hall
    generalize hconcat : files ++ [contents] = all at hall
    cases hall with
    | nil => simp at hconcat
    | snoc hfiles hnumber hembeds =>
      obtain ⟨rfl, hself⟩ := append_inj' hconcat rfl
      obtain rfl := singleton_inj.mp hself
      exact ⟨hfiles, hnumber, hembeds⟩
  · rintro ⟨hfiles, hnumber, hembeds⟩
    exact .snoc hfiles hnumber hembeds

theorem embeds (hfiles : Chronicle (files ++ contents :: more))
    (hsnapshot : contents.snapshot = some details) : Embeds files contents details := by
  rw [append_cons] at hfiles
  exact (concat_iff.mp hfiles.of_append).2.2 details hsnapshot

section

variable (hfiles : Chronicle files)
include hfiles

theorem le_last (hdetails : details ∈ embedded files) :
    details.snapshotSequenceNumber ≤ lastIssued files ∧
      details.lastWalSequenceNumber ≤ lastTaken files := by
  induction hfiles with
  | nil => simp [embedded] at hdetails
  | @snoc files contents _ _ hembeds ih =>
    rw [embedded_concat, mem_append] at hdetails
    cases hsnapshot : contents.snapshot with
    | none =>
      rw [lastIssued_concat_none hsnapshot, lastTaken_concat_none hsnapshot]
      exact ih (by simpa [hsnapshot] using hdetails)
    | some last =>
      rw [lastIssued_concat_some hsnapshot, lastTaken_concat_some hsnapshot]
      rcases hdetails with hold | hself
      · have hnumber := (hembeds last hsnapshot).number
        have hafter := (hembeds last hsnapshot).after
        have := ih hold
        omega
      · obtain rfl : details = last := by simpa [hsnapshot] using hself
        exact ⟨le_rfl, le_rfl⟩

/-- Snapshots are numbered in the order of the files they take. -/
theorem embedded_ordered :
    (embedded files).Pairwise fun earlier later =>
      earlier.snapshotSequenceNumber < later.snapshotSequenceNumber ∧
        earlier.lastWalSequenceNumber < later.lastWalSequenceNumber := by
  induction hfiles with
  | nil => simp [embedded]
  | @snoc files contents hfiles _ hembeds ih =>
    rw [embedded_concat, pairwise_append]
    refine ⟨ih, by cases contents.snapshot <;> simp, ?_⟩
    intro earlier hearlier later hlater
    have hembeds := hembeds later (Option.mem_toList.mp hlater)
    have hlast := hfiles.le_last hearlier
    have hnumber := hembeds.number
    have hafter := hembeds.after
    omega

theorem embedded_trichotomy {a b : SnapshotDetails}
    (ha : a ∈ embedded files) (hb : b ∈ embedded files) :
    (a.snapshotSequenceNumber < b.snapshotSequenceNumber ∧
        a.lastWalSequenceNumber < b.lastWalSequenceNumber) ∨ a = b ∨
      (b.snapshotSequenceNumber < a.snapshotSequenceNumber ∧
        b.lastWalSequenceNumber < a.lastWalSequenceNumber) := by
  by_cases heq : a = b
  · exact .inr (.inl heq)
  have hsymm : Std.Symm fun a b : SnapshotDetails =>
      (a.snapshotSequenceNumber < b.snapshotSequenceNumber ∧
          a.lastWalSequenceNumber < b.lastWalSequenceNumber) ∨
        (b.snapshotSequenceNumber < a.snapshotSequenceNumber ∧
          b.lastWalSequenceNumber < a.lastWalSequenceNumber) := ⟨fun _ _ h => h.symm⟩
  have hpairs := hfiles.embedded_ordered.imp (S := fun a b : SnapshotDetails =>
      (a.snapshotSequenceNumber < b.snapshotSequenceNumber ∧
          a.lastWalSequenceNumber < b.lastWalSequenceNumber) ∨
        (b.snapshotSequenceNumber < a.snapshotSequenceNumber ∧
          b.lastWalSequenceNumber < a.lastWalSequenceNumber)) fun h => .inl h
  rcases hpairs.forall ha hb heq with h | h
  · exact .inl h
  · exact .inr (.inr h)

theorem last_le_of_le {a b : SnapshotDetails}
    (ha : a ∈ embedded files) (hb : b ∈ embedded files)
    (hle : a.snapshotSequenceNumber ≤ b.snapshotSequenceNumber) :
    a.lastWalSequenceNumber ≤ b.lastWalSequenceNumber := by
  rcases hfiles.embedded_trichotomy ha hb with h | rfl | h
  · exact h.2.le
  · exact le_rfl
  · omega

/-- The snapshots up to a number, with the next one. -/
theorem filter_le_succ (hdetails : details ∈ embedded files)
    {number : Nat} (hnumber : details.snapshotSequenceNumber = number + 1) :
    (embedded files).filter (fun other => decide (other.snapshotSequenceNumber ≤ number)) ++
        [details] =
      (embedded files).filter fun other => decide (other.snapshotSequenceNumber ≤ number + 1) := by
  induction hfiles with
  | nil => simp [embedded] at hdetails
  | @snoc files contents hfiles _ hembeds ih =>
    rw [embedded_concat] at hdetails ⊢
    cases hsnapshot : contents.snapshot with
    | none =>
      simp only [hsnapshot, Option.toList_none, append_nil] at hdetails ⊢
      exact ih hdetails
    | some last =>
      have hlast := (hembeds last hsnapshot).number
      simp only [hsnapshot, Option.toList_some, filter_append] at hdetails ⊢
      rcases mem_concat.mp hdetails with hold | rfl
      · have hle := (hfiles.le_last hold).1
        rw [← ih hold]
        have h1 : ¬ last.snapshotSequenceNumber ≤ number := by omega
        have h2 : ¬ last.snapshotSequenceNumber ≤ number + 1 := by omega
        simp [h1, h2]
      · have hall : ∀ bound, number ≤ bound → (embedded files).filter (fun other =>
            decide (other.snapshotSequenceNumber ≤ bound)) = embedded files := by
          intro bound hbound
          rw [filter_eq_self]
          intro other hother
          have := (hfiles.le_last hother).1
          simp only [decide_eq_true_eq]
          omega
        rw [hall number le_rfl, hall (number + 1) (Nat.le_succ _)]
        simp [hnumber]

end

/-- A snapshot takes files up to the one it is embedded in. -/
theorem last_le_number (hfiles : Chronicle (files ++ contents :: more))
    (hsnapshot : contents.snapshot = some details) :
    details.lastWalSequenceNumber ≤ contents.number := by
  obtain ⟨taken, htaken, hlast⟩ := (hfiles.embeds hsnapshot).last_mem
  rw [append_cons] at hfiles
  rw [← hlast]
  rcases mem_concat.mp htaken with hold | hself
  · exact ((concat_iff.mp hfiles.of_append).2.1 taken hold).le
  · rw [hself]

theorem last_le_of_mem (hfiles : Chronicle files) (hcontents : contents ∈ files)
    (hsnapshot : contents.snapshot = some details) :
    details.lastWalSequenceNumber ≤ contents.number := by
  obtain ⟨before, after, rfl⟩ := append_of_mem hcontents
  exact hfiles.last_le_number hsnapshot

/-- Where an in-order snapshot stopped, later snapshots do not leave anything earlier behind: the
first file up to the embedding one that a later snapshot leaves does not end before the earlier
marker either. -/
theorem stop (hfiles : Chronicle (files ++ contents :: more))
    (hsnapshot : contents.snapshot = some details) (hinorder : details.forced = false)
    {later : SnapshotDetails} (hlater : later ∈ embedded (files ++ contents :: more))
    (hle : details.snapshotSequenceNumber ≤ later.snapshotSequenceNumber) :
    ∀ kept ∈ (filesAfter later.lastWalSequenceNumber (files ++ [contents])).head?,
      details.endTimeMarker ≤ kept.maxTime := by
  induction more using List.reverseRecOn generalizing later with
  | nil =>
    have hembeds := hfiles.embeds hsnapshot
    rw [embedded_concat, mem_append] at hlater
    rcases hlater with hold | hself
    · have hlast := (hfiles.of_append.le_last hold).1
      have hnumber := hembeds.number
      omega
    · obtain rfl : later = details := by simpa [hsnapshot] using hself
      exact hembeds.stop hinorder
  | append_singleton more last ih =>
    have hassoc : files ++ contents :: (more ++ [last]) =
        files ++ contents :: more ++ [last] := by simp
    rw [hassoc] at hfiles hlater
    obtain ⟨hprior, hnumbers, hembeds⟩ := concat_iff.mp hfiles
    rw [embedded_concat, mem_append] at hlater
    rcases hlater with hold | hself
    · exact ih hprior hold hle
    have hlast : last.snapshot = some later := by
      simpa [Option.mem_toList] using hself
    have hlater := hembeds later hlast
    intro kept hkept
    obtain ⟨hmem, hafter⟩ := mem_filesAfter.mp (mem_of_mem_head? hkept)
    have hsplit : ∀ base, filesAfter base (files ++ contents :: more ++ [last]) =
        filesAfter base (files ++ [contents]) ++ filesAfter base (more ++ [last]) := by
      intro base
      rw [← filesAfter_append]
      simp
    -- the snapshot before `later`, and the first file it left
    have hdetails : details ∈ embedded (files ++ contents :: more) :=
      mem_embedded.mpr ⟨contents, by simp, hsnapshot⟩
    obtain ⟨hnone, -⟩ | ⟨previous, hprevious, htaken, hissued⟩ :=
      embedded_cases (files ++ contents :: more)
    · simp [hnone] at hdetails
    have hpreviousle : details.snapshotSequenceNumber ≤ previous.snapshotSequenceNumber :=
      hissued ▸ (hprior.le_last hdetails).1
    have hkeptafter : kept ∈ filesAfter previous.lastWalSequenceNumber (files ++ [contents]) := by
      refine mem_filesAfter.mpr ⟨hmem, ?_⟩
      have := hlater.after
      omega
    obtain ⟨first, hfirst⟩ := exists_head hkeptafter
    have hmarker := ih hprior hprevious hpreviousle first hfirst
    -- `later` takes that file, so its marker is above the earlier one
    have hinorderlater : later.forced = false := by
      rw [← Bool.not_eq_true]
      intro hforced
      have hself := hlater.forced hforced
      have hlt := hnumbers kept (by
        rcases mem_concat.mp hmem with h | h
        · simp [h]
        · simp [h])
      omega
    have hheadall : (filesAfter previous.lastWalSequenceNumber
        (files ++ contents :: more ++ [last])).head? = some first := by
      rw [hsplit, head?_append, hfirst, Option.some_or]
    have hfirsttaken : first.maxTime < later.endTimeMarker := by
      refine hlater.taken hinorderlater first ?_ ?_
      · rw [htaken]
        exact mem_of_mem_head? hheadall
      · obtain ⟨taken, htakenmem, htakennumber⟩ := hlater.last_mem
        rw [← htakennumber]
        refine head_le hfiles.ordered hheadall (mem_filesAfter.mpr ⟨htakenmem, ?_⟩)
        have := hlater.after
        omega
    have hkeptall : (filesAfter later.lastWalSequenceNumber
        (files ++ contents :: more ++ [last])).head? = some kept := by
      rw [hsplit, head?_append, Option.mem_def.mp hkept, Option.some_or]
    have hstop := hlater.stop hinorderlater kept hkeptall
    omega

end Chronicle

section Taking

variable {tracker next : SnapshotTracker} {file : WalFile} {forceSnapshot : Bool}
variable {contents : WalContents}

/-- A file that is taken comes with the snapshot of the tracker that has its period. -/
theorem SnapshotTracker.takeFile_eq_some
    (htake : tracker.takeFile file forceSnapshot = some (next, contents)) :
    contents.file = file ∧ ∃ added, tracker.addWalPeriod file.period = some added ∧
      ((contents.snapshot = none ∧ added.snapshot forceSnapshot = none ∧ next = added) ∨
        ∃ details, contents.snapshot = some details ∧
          added.snapshot forceSnapshot = some (details, next)) := by
  obtain ⟨added, hadded, htake⟩ := Option.map_eq_some_iff.mp htake
  cases hsnapshot : added.snapshot forceSnapshot with
  | none =>
    simp only [hsnapshot, Prod.mk.injEq] at htake
    obtain ⟨rfl, rfl⟩ := htake
    exact ⟨rfl, _, hadded, .inl ⟨rfl, hsnapshot, rfl⟩⟩
  | some issued =>
    simp only [hsnapshot, Prod.mk.injEq] at htake
    obtain ⟨rfl, rfl⟩ := htake
    exact ⟨rfl, _, hadded, .inr ⟨issued.1, rfl, hsnapshot⟩⟩

theorem SnapshotTracker.gen1Duration_takeFile
    (htake : tracker.takeFile file forceSnapshot = some (next, contents)) :
    next.gen1Duration = tracker.gen1Duration := by
  obtain ⟨-, added, hadded, hcases⟩ := takeFile_eq_some htake
  obtain rfl := addWalPeriod_eq_some hadded
  rcases hcases with ⟨-, -, rfl⟩ | ⟨details, -, hsnapshot⟩
  · rfl
  · exact (snapshot_keeps_config hsnapshot).2

end Taking

/-- The tracker of a process whose pending files are those of `files` after `base`. -/
structure Pending (tracker : SnapshotTracker) (base number : Nat) (files : List WalContents) :
    Prop where
  periods : tracker.walPeriods = (filesAfter base files).map (·.period)
  number : tracker.lastSnapshotSequenceNumber = number

namespace Pending

variable {tracker next : SnapshotTracker} {base number : Nat} {files : List WalContents}
variable {contents : WalContents} {details : SnapshotDetails} {forceSnapshot : Bool}

theorem inOrder (hpending : Pending tracker base number files)
    (hordered : files.Pairwise fun earlier later => earlier.number < later.number) :
    tracker.InOrder := by
  unfold SnapshotTracker.InOrder
  rw [hpending.periods, pairwise_map]
  exact hordered.filter _

theorem getLast? (hpending : Pending tracker base number (files ++ [contents]))
    (hafter : base < contents.number) :
    tracker.walPeriods.getLast? = some contents.period := by
  simp [hpending.periods, filesAfter_concat hafter]

section

variable (hpending : Pending tracker base number files)
include hpending

theorem head? :
    tracker.walPeriods.head? = (filesAfter base files).head?.map (·.period) := by
  rw [hpending.periods, head?_map]

theorem addWalPeriod {added : SnapshotTracker} (hafter : base < contents.number)
    (hadded : tracker.addWalPeriod contents.period = some added) :
    Pending added base number (files ++ [contents]) := by
  rw [SnapshotTracker.addWalPeriod_eq_some hadded]
  refine ⟨?_, hpending.number⟩
  simp [hpending.periods, filesAfter_concat hafter]

/-- The tracker after an issued snapshot: the files after its last one are pending. -/
theorem issue (hordered : files.Pairwise fun earlier later => earlier.number < later.number)
    (hsnapshot : tracker.snapshot forceSnapshot = some (details, next)) :
    base < details.lastWalSequenceNumber ∧ details.snapshotSequenceNumber = number + 1 ∧
      (∃ taken ∈ files, taken.number = details.lastWalSequenceNumber) ∧
      Pending next details.lastWalSequenceNumber details.snapshotSequenceNumber files := by
  have hissues := issues_of_snapshot (hpending.inOrder hordered) hsnapshot
  obtain ⟨period, hperiod, hlast⟩ := hissues.last_mem
  rw [hpending.periods, mem_map] at hperiod
  obtain ⟨taken, htaken, rfl⟩ := hperiod
  obtain ⟨hmem, hafter⟩ := mem_filesAfter.mp htaken
  rw [WalContents.walFileNumber_period] at hlast
  rw [hlast] at hafter
  refine ⟨hafter, by rw [hissues.number, hpending.number], ⟨taken, hmem, hlast⟩,
    ⟨?_, hissues.next_number⟩⟩
  rw [hissues.next_walPeriods, hpending.periods, filter_map,
    ← filesAfter_filesAfter hafter.le]
  rfl

end

/-- The rounded end of every pending file that a snapshot takes is before its marker. -/
theorem separates (hpending : Pending tracker base number files)
    (hordered : files.Pairwise fun earlier later => earlier.number < later.number)
    (hseparates : tracker.MarkerSeparates forceSnapshot)
    (hsnapshot : tracker.snapshot forceSnapshot = some (details, next))
    (hcontents : contents ∈ filesAfter base files)
    (hle : contents.number ≤ details.lastWalSequenceNumber) :
    truncateTo tracker.gen1Duration.asNanos contents.maxTime < details.endTimeMarker := by
  have hperiod : contents.period ∈ tracker.walPeriods := by
    rw [hpending.periods]
    exact mem_map_of_mem hcontents
  exact truncateTo_lt_endTimeMarker (hpending.inOrder hordered) hseparates hsnapshot hperiod hle

/-- Whatever its configuration, a process that has seen all files embeds only snapshots that the
files account for. -/
theorem embeds (hpending : Pending tracker (lastTaken files) (lastIssued files)
      (files ++ [contents]))
    (hordered : (files ++ [contents]).Pairwise fun earlier later => earlier.number < later.number)
    (hafter : lastTaken files < contents.number)
    (hsnapshot : tracker.snapshot forceSnapshot = some (details, next)) :
    Embeds files contents details := by
  obtain ⟨htaken, hnumber, hlast, hnext⟩ := hpending.issue hordered hsnapshot
  have hinOrder := hpending.inOrder hordered
  refine ⟨hnumber, htaken, hlast, ?_, ?_, ?_⟩
  · intro hforced
    obtain ⟨-, hall⟩ | ⟨hinorder, -⟩ := snapshot_eq_some hsnapshot
    · simp only [snapshotAll, Option.bind_eq_bind, Option.pure_def, Option.bind_eq_some_iff,
        Option.some.injEq, Prod.mk.injEq, hpending.getLast? hafter] at hall
      obtain ⟨_, _, _, _, last, rfl, rfl, _⟩ := hall
      rfl
    · simp [hforced] at hinorder
  · intro hinorder covered hcovered hle
    obtain ⟨hforced, -⟩ | ⟨-, -, -, -, hsnapshot⟩ := snapshot_eq_some hsnapshot
    · simp [hforced] at hinorder
    refine (inOrder_marker hinOrder hsnapshot).2 covered.period ?_ hle
    rw [hpending.periods]
    exact mem_map_of_mem hcovered
  · intro hinorder kept hkept
    obtain ⟨hforced, -⟩ | ⟨-, -, -, -, hsnapshot⟩ := snapshot_eq_some hsnapshot
    · simp [hforced] at hinorder
    refine (inOrder_marker hinOrder hsnapshot).1 kept.period ?_
    rw [hnext.head?, Option.mem_def.mp hkept]
    rfl

/-- Replaying a snapshot of everything takes the same files again. -/
theorem retake_forced (hpending : Pending tracker base number (files ++ [contents]))
    (hafter : base < contents.number) :
    ∃ info next, tracker.snapshot true = some (info, next) ∧
      info.lastWalSequenceNumber = contents.number := by
  have hlast := hpending.getLast? hafter
  have hperiods : tracker.walPeriods ≠ [] := by
    rintro hnil
    simp [hnil] at hlast
  rw [snapshot_true hperiods]
  exact exists_snapshotAll hlast

/-- Replaying an in-order snapshot takes the same files again when enough files are pending, not
too many, and the marker is the same. -/
theorem retake_inOrder (hpending : Pending tracker (lastTaken files) number (files ++ [contents]))
    (hordered : (files ++ [contents]).Pairwise fun earlier later => earlier.number < later.number)
    (hafter : lastTaken files < contents.number) (hembeds : Embeds files contents details)
    (hinorder : details.forced = false)
    (hmany : tracker.numberOfPeriodsToSnapshotAfter ≤ tracker.walPeriods.length)
    (hfew : tracker.walPeriods.length < 3 * tracker.snapshotSize)
    (hmarker : tracker.inOrderMarker contents.maxTime = details.endTimeMarker) :
    ∃ info next, tracker.snapshot false = some (info, next) ∧
      info.lastWalSequenceNumber = details.lastWalSequenceNumber := by
  have hlast := hpending.getLast? hafter
  have hinOrder := hpending.inOrder hordered
  obtain ⟨taken, htaken, htakennumber⟩ := hembeds.last_mem
  have htakenafter : taken ∈ filesAfter (lastTaken files) (files ++ [contents]) :=
    mem_filesAfter.mpr ⟨htaken, htakennumber ▸ hembeds.after⟩
  rw [snapshot_of_inOrder hmany hfew]
  -- the first pending file is one the snapshot takes
  obtain ⟨first, hfirst⟩ := exists_head htakenafter
  have hfirstperiod : tracker.walPeriods.head? = some first.period := by
    rw [hpending.head?, hfirst]
    rfl
  have hfirsttaken : first.maxTime < details.endTimeMarker :=
    hembeds.taken hinorder first (mem_of_mem_head? hfirst)
      (htakennumber ▸ head_le hordered hfirst htakenafter)
  obtain ⟨info, next, hsnapshot⟩ := exists_snapshotInOrderWalPeriods hfirstperiod
    hlast (by simpa [hmarker] using hfirsttaken)
  refine ⟨info, next, hsnapshot, ?_⟩
  have hsame : info.endTimeMarker = details.endTimeMarker := by
    obtain ⟨-, last, hgetLast, hinfo, -⟩ :=
      issues_of_snapshotInOrderWalPeriods hsnapshot
    rw [hlast] at hgetLast
    obtain rfl := Option.some.inj hgetLast
    rw [hinfo, ← hmarker]
    rfl
  obtain ⟨hkept, hcovered⟩ := inOrder_marker hinOrder hsnapshot
  have hissue := hpending.issue hordered
    (snapshot_of_inOrder hmany hfew ▸ hsnapshot)
  obtain ⟨hbase, -, ⟨own, hown, hownnumber⟩, hnext⟩ := hissue
  -- neither snapshot can stop before the other
  apply le_antisymm
  · by_contra hlt
    rw [not_le] at hlt
    have hownafter : own ∈ filesAfter details.lastWalSequenceNumber (files ++ [contents]) :=
      mem_filesAfter.mpr ⟨hown, hownnumber ▸ hlt⟩
    obtain ⟨kept, hkept⟩ := exists_head hownafter
    have hstop := hembeds.stop hinorder kept hkept
    have hafterbase : kept ∈ filesAfter (lastTaken files) (files ++ [contents]) := by
      obtain ⟨hmem, hgt⟩ := mem_filesAfter.mp (mem_of_mem_head? hkept)
      exact mem_filesAfter.mpr ⟨hmem, hembeds.after.trans hgt⟩
    have hbefore := hcovered kept.period (by
      rw [hpending.periods]
      exact mem_map_of_mem hafterbase) (hownnumber ▸ head_le hordered hkept hownafter)
    rw [WalContents.maxTime_period] at hbefore
    omega
  · by_contra hlt
    rw [not_le] at hlt
    have htakenlater : taken ∈ filesAfter info.lastWalSequenceNumber (files ++ [contents]) :=
      mem_filesAfter.mpr ⟨htaken, htakennumber ▸ hlt⟩
    obtain ⟨left, hleft⟩ := exists_head htakenlater
    have hstop := hkept left.period (by
      rw [hnext.head?, hleft]
      rfl)
    have hafterbase : left ∈ filesAfter (lastTaken files) (files ++ [contents]) := by
      obtain ⟨hmem, hgt⟩ := mem_filesAfter.mp (mem_of_mem_head? hleft)
      exact mem_filesAfter.mpr ⟨hmem, hbase.trans hgt⟩
    have hbefore := hembeds.taken hinorder left hafterbase
      (htakennumber ▸ head_le hordered hleft htakenlater)
    rw [WalContents.maxTime_period] at hstop
    omega

/-- A snapshot that was already taken, with its last file at or before `base`, is not taken again
unless too many files are pending or the marker is later. -/
theorem retake_none {more : List WalContents} {started : SnapshotDetails}
    (hpending : Pending tracker started.lastWalSequenceNumber number (files ++ [contents]))
    (hfiles : Chronicle (files ++ contents :: more)) (hsnapshot : contents.snapshot = some details)
    (hinorder : details.forced = false)
    (hstarted : started ∈ embedded (files ++ contents :: more))
    (hle : details.snapshotSequenceNumber ≤ started.snapshotSequenceNumber)
    (hafter : started.lastWalSequenceNumber < contents.number)
    (hfew : tracker.walPeriods.length < 3 * tracker.snapshotSize)
    (hmarker : tracker.inOrderMarker contents.maxTime ≤ details.endTimeMarker) :
    tracker.snapshot false = none := by
  have hcontents : contents ∈ filesAfter started.lastWalSequenceNumber (files ++ [contents]) :=
    mem_filesAfter.mpr ⟨by simp, hafter⟩
  obtain ⟨first, hfirst⟩ := exists_head hcontents
  have hstop := hfiles.stop hsnapshot hinorder hstarted hle first hfirst
  have hfirstperiod : tracker.walPeriods.head? = some first.period := by
    rw [hpending.head?, hfirst]
    rfl
  have hnone := snapshotInOrderWalPeriods_eq_none hfirstperiod
    (hpending.getLast? hafter) (hmarker.trans hstop)
  simp [SnapshotTracker.snapshot, Nat.not_le.mpr hfew, hnone]

end Pending

end RefluxDb.Wal
