import RefluxDb.Write.CheckpointRestart

/-! Building the monthly checkpoints from the snapshots that a node has.

A snapshot counts to the month in which its object was written or, where that is not known, to that
of its latest row, whose time in nanoseconds is then read as milliseconds. A snapshot without a
latest row is passed over, also if it removes files. The checkpoints are taken to be put in the
store. -/

namespace RefluxDb.Write

open List RefluxDb.Library

/-- The month of a day, counted from the first of January 1970, with the year in 16 bits. -/
def yearMonthOfDay (day : Int) : YearMonth :=
  -- a year begins in March here, and an era of 400 years in the year 0
  let era := (day + 719468) / 146097
  let dayOfEra := (day + 719468) % 146097
  let yearOfEra := (dayOfEra - dayOfEra / 1460 + dayOfEra / 36524 - dayOfEra / 146096) / 365
  let month := (5 * (dayOfEra - (365 * yearOfEra + yearOfEra / 4 - yearOfEra / 100)) + 2) / 153
  let year := yearOfEra + 400 * era + if month < 10 then 0 else 1
  toLex ((year % 65536).toNat, (if month < 10 then month + 3 else month - 9).toNat)

/-- The times in milliseconds that have a date. -/
def HasDate (ms : Int) : Prop := -8334601228800000 ≤ ms ∧ ms < 8210266876800000
deriving Decidable

/-- Without a date the conversion panics. -/
def yearMonthFromTimestampMs (ms : Int) : Option YearMonth :=
  if HasDate ms then some (yearMonthOfDay (ms / 86400000)) else none

/-- A snapshot and the time at which its object was written. -/
abbrev Loaded := Option Int × PersistedSnapshot

namespace Loaded

variable (loaded : Loaded) (snapshots : List Loaded)

def timestampMs : Int := loaded.1.getD loaded.2.maxTime

def month : YearMonth := yearMonthOfDay (loaded.timestampMs / 86400000)

def Removes (entry : TableKey × ParquetFile) : Prop :=
  fileId entry ∈ loaded.2.removed.map fileId
deriving Decidable

/-- The snapshots that are not passed over. -/
def timed : List Loaded := snapshots.filter fun s => s.2.Timed

/-- The checkpoints of the snapshots, newest first, or a panic. -/
def buildAndPersistCheckpointsFromSnapshots : Option (List PersistedSnapshotCheckpoint) :=
  ((timed snapshots).mapM fun s => (yearMonthFromTimestampMs s.timestampMs).map (·, s.2)).map
    buildCheckpointsFromSnapshots

/-- The checkpoints are built, and list together what one checkpoint of all snapshots lists. -/
def BuildsRight : Prop :=
  ∃ checkpoints, buildAndPersistCheckpointsFromSnapshots snapshots = some checkpoints ∧
    ∀ month entry, entry ∈ (Inner.newFromCheckpointsAndSnapshots checkpoints []).files ↔
      entry ∈ (CachedCheckpoint.ofSnapshots month
        (snapshots.map Prod.snd).reverse).checkpoint.databases

/-- All months are found. A file is removed just when its snapshot is passed over or one that is not
removes it, in no earlier month. -/
def Accounted : Prop :=
  (∀ s ∈ timed snapshots, HasDate s.timestampMs) ∧ ∀ s ∈ snapshots, ∀ entry ∈ s.2.added,
    ((∃ r ∈ snapshots, r.Removes entry) ↔
      (s ∈ timed snapshots → ∃ r ∈ timed snapshots, r.Removes entry ∧ s.month ≤ r.month))

variable {snapshots} {tableOf : String → TableKey} {entry : TableKey × ParquetFile}

/-- The snapshots that are not passed over, with their months. -/
def dated (snapshots : List Loaded) : List Dated :=
  (timed snapshots).map fun s => (s.month, s.2)

theorem buildAndPersist_eq : buildAndPersistCheckpointsFromSnapshots snapshots =
    if ∀ s ∈ timed snapshots, HasDate s.timestampMs then
      some (buildCheckpointsFromSnapshots (dated snapshots)) else none := by
  have hmonth : (fun s : Loaded => (yearMonthFromTimestampMs s.timestampMs).map (·, s.2)) =
      fun s => if HasDate s.timestampMs then some (s.month, s.2) else none := by
    funext s
    unfold yearMonthFromTimestampMs
    split <;> rfl
  rw [buildAndPersistCheckpointsFromSnapshots, hmonth, mapM_ite]
  split <;> rfl

/-- The snapshots of a month, oldest first. -/
def ofMonth (snapshots : List Loaded) (month : YearMonth) : List PersistedSnapshot :=
  ((buildOrder (dated snapshots)).filter fun d => d.1 = month).map Prod.snd

theorem mem_buildOrder_dated {d : Dated} :
    d ∈ buildOrder (dated snapshots) ↔ ∃ s ∈ timed snapshots, (s.month, s.2) = d := by
  rw [mem_buildOrder, dated, mem_map]
  refine and_iff_left_of_imp ?_
  rintro ⟨s, hs, rfl⟩
  exact of_decide_eq_true (mem_filter.mp hs).2

section History

variable (hhistory : OwnHistory tableOf (snapshots.map Prod.snd).reverse)
include hhistory

theorem eq_of_snapshot_eq {s t : Loaded} (hs : s ∈ snapshots) (ht : t ∈ snapshots)
    (heq : s.2 = t.2) : s = t :=
  inj_on_of_nodup_map
    (nodup_reverse.mp (hhistory.ordered.imp fun h heq => h.ne (congrArg _ heq))) hs ht heq

/-- Together the checkpoints list the files that are not removed in their month or a later one. -/
theorem mem_built_iff : entry ∈ (Inner.newFromCheckpointsAndSnapshots
      (buildCheckpointsFromSnapshots (dated snapshots)) []).files ↔
    ∃ s ∈ timed snapshots, entry ∈ s.2.added ∧
      ¬∃ r ∈ timed snapshots, r.Removes entry ∧ s.month ≤ r.month := by
  have hsublist (month : YearMonth) :
      (ofMonth snapshots month).Sublist (snapshots.map Prod.snd).reverse := by
    refine (filter_sublist.map _).trans ?_
    rw [buildOrder, map_reverse, dated, filter_map, map_map]
    exact ((filter_sublist.trans filter_sublist).map _).reverse
  have hgroup : ∀ month t, t ∈ ofMonth snapshots month ↔
      ∃ s ∈ timed snapshots, s.month = month ∧ s.2 = t := by
    simp [ofMonth, mem_buildOrder_dated, and_assoc]
  have hmonth : ∀ s ∈ timed snapshots, ∃ c ∈ buildCheckpointsFromSnapshots (dated snapshots),
      c.yearMonth = s.month := fun s hs =>
    ⟨_, mem_buildCheckpointsFromSnapshots.mpr ⟨s.month, mem_map.mpr
      ⟨_, mem_buildOrder_dated.mpr ⟨s, hs, rfl⟩, rfl⟩, rfl⟩, yearMonth_ofSnapshots _ _⟩
  refine (mem_merged_iff (fun c => ofMonth snapshots c.yearMonth) hhistory
    pairwise_buildCheckpointsFromSnapshots (fun c hc => ?_) fun c _ c' _ t ht ht' => ?_).trans ?_
  · obtain ⟨month, _, heq⟩ := mem_buildCheckpointsFromSnapshots.mp hc
    have hyear : c.yearMonth = month := by rw [heq, yearMonth_ofSnapshots]
    have hrecords := (Records.ofSnapshots month (hhistory.consistent.sublist (hsublist month))
      (hhistory.ordered.sublist (hsublist month))).1
    rw [ofMonth, ← heq, ← hyear] at hrecords
    exact ⟨hrecords, (hsublist _).subset⟩
  · obtain ⟨s, hs, hsame, rfl⟩ := (hgroup _ t).mp ht
    obtain ⟨s', hs', hsame', heq⟩ := (hgroup _ s.2).mp ht'
    rw [← hsame, ← hsame', eq_of_snapshot_eq hhistory (mem_filter.mp hs').1
      (mem_filter.mp hs).1 heq]
  · simp only [hgroup]
    constructor
    · rintro ⟨c, hc, _, ⟨s, hs, hsame, rfl⟩, hadded, hunremoved⟩
      refine ⟨s, hs, hadded, ?_⟩
      rintro ⟨r, hr, hremoves, hle⟩
      obtain ⟨later, hlater, heq⟩ := hmonth r hr
      exact hunremoved later hlater (by rwa [← hsame, heq]) r.2 ⟨r, hr, heq.symm, rfl⟩ hremoves
    · rintro ⟨s, hs, hadded, hunremoved⟩
      obtain ⟨c, hc, hsame⟩ := hmonth s hs
      refine ⟨c, hc, s.2, ⟨s, hs, hsame.symm, rfl⟩, hadded, ?_⟩
      rintro later _ hle _ ⟨r, hr, heq, rfl⟩ hremoves
      exact hunremoved ⟨r, hr, hremoves, by rwa [heq, ← hsame]⟩

/-- Checkpoints that are built from the snapshots of a node list what the snapshots leave exactly
when all months are found and every removal is applied. -/
theorem buildsRight_iff_accounted : BuildsRight snapshots ↔ Accounted snapshots := by
  have hfolded : ∀ month entry, entry ∈ (CachedCheckpoint.ofSnapshots month
        (snapshots.map Prod.snd).reverse).checkpoint.databases ↔
      (∃ s ∈ snapshots, entry ∈ s.2.added) ∧ ¬∃ r ∈ snapshots, r.Removes entry := by
    intro month entry
    rw [(Records.ofSnapshots month hhistory.consistent hhistory.ordered).1.databases]
    simp only [mem_reverse, mem_map, exists_exists_and_eq_and, Removes]
  simp only [BuildsRight, Accounted, buildAndPersist_eq, Option.ite_none_right_eq_some,
    Option.some.injEq, and_assoc, exists_and_left, exists_eq_left', hfolded,
    mem_built_iff hhistory, forall_const]
  refine and_congr_right fun _ => ⟨fun h s hs entry hentry => ?_, fun h entry => ⟨?_, ?_⟩⟩
  · rw [← not_iff_not, Classical.not_imp]
    refine ⟨fun hkept => ?_, fun hleft => ((h entry).mp ⟨s, hleft.1, hentry, hleft.2⟩).2⟩
    obtain ⟨t, ht, hadded, hkept⟩ := (h entry).mpr ⟨⟨s, hs, hentry⟩, hkept⟩
    have hknown : ∀ t ∈ snapshots, t.2 ∈ (snapshots.map Prod.snd).reverse := fun t ht =>
      mem_reverse.mpr (mem_map_of_mem ht)
    have hmem := (mem_filter.mp ht).1
    obtain rfl := eq_of_snapshot_eq hhistory hmem hs
      (hhistory.consistent.snapshot_eq (hknown t hmem) (hknown s hs) hadded hentry rfl)
    exact ⟨ht, hkept⟩
  · rintro ⟨s, hs, hadded, hkept⟩
    have hmem := (mem_filter.mp hs).1
    exact ⟨⟨s, hmem, hadded⟩, fun hremoved => hkept ((h s hmem entry hadded).mp hremoved hs)⟩
  · rintro ⟨⟨s, hs, hadded⟩, hkept⟩
    have hnone := mt (h s hs entry hadded).mpr hkept
    obtain ⟨htimed, hunremoved⟩ := Classical.not_imp.mp hnone
    exact ⟨s, htimed, hadded, hunremoved⟩

end History

section Example

open Streams

/-- Persisted at the beginning of 1970, with the file of WAL file 1. -/
def first : Loaded := (some 0, writerManifest 1 [writerFile 1 1])

/-- A later snapshot that removes that file. -/
def removing (files : List ParquetFile) : Loaded :=
  (some 0, { writerManifest 2 files with removedFiles := oneTable [writerFile 1 1] })

theorem buildsRight_iff_accounted_removing : BuildsRight [removing [writerFile 2 2], first] := by
  have hhistory : OwnHistory Persister.ownTable
      ([removing [writerFile 2 2], first].map Prod.snd).reverse := by
    constructor <;> decide
  refine (buildsRight_iff_accounted hhistory).mpr ⟨by decide, ?_⟩
  decide

/-- A snapshot that adds no file removes none, and a snapshot of 2026 of which no other time is
known makes the build panic. -/
theorem removed_file_listed_again :
    (∃ checkpoints, buildAndPersistCheckpointsFromSnapshots [removing [], first] =
        some checkpoints ∧ (⟨1, 1⟩, writerFile 1 1) ∈
      (Inner.newFromCheckpointsAndSnapshots checkpoints []).files) ∧
    ¬BuildsRight [removing [], first] ∧
    buildAndPersistCheckpointsFromSnapshots
      [(none, writerManifest 1 [{ writerFile 1 1 with maxTime := 1767225600000000000 }])] =
        none := by
  have hlisted : (⟨1, 1⟩, writerFile 1 1) ∈ (Inner.newFromCheckpointsAndSnapshots
      (buildCheckpointsFromSnapshots (dated [removing [], first])) []).files := by decide
  have hbuilt : buildAndPersistCheckpointsFromSnapshots [removing [], first] =
      some (buildCheckpointsFromSnapshots (dated [removing [], first])) := by
    rw [buildAndPersist_eq, if_pos (by decide)]
  refine ⟨⟨_, hbuilt, hlisted⟩, ?_, by rw [buildAndPersist_eq, if_neg (by decide)]⟩
  rintro ⟨checkpoints, hsome, hright⟩
  obtain rfl := Option.some.inj (hbuilt.symm.trans hsome)
  exact absurd ((hright (toLex (1970, 1)) _).mp hlisted) (by decide)

end Example

end Loaded

end RefluxDb.Write
