import RefluxDb.Write.Boot
import RefluxDb.Write.CheckpointBuild

/-! Why the monthly checkpoints and the snapshots after them give what all snapshots give.

Every snapshot is filed under a month, in the order of time. A checkpoint records the snapshots of
its month up to its number. If the checkpoints of past months are complete, and no snapshot with a
smaller number than that of a checkpoint was passed over, a file is listed at startup just when a
snapshot adds it and none removes it. -/

namespace RefluxDb.Write

open List RefluxDb.Library PersistedSnapshot

/-- A snapshot with the month it counts to. -/
abbrev Dated := YearMonth × PersistedSnapshot

/-- The snapshots filed under a month up to a number. -/
def filedIn (filed : List Dated) (month : YearMonth) (last : Nat) : List PersistedSnapshot :=
  (filed.filter fun dated => dated.1 = month ∧ dated.2.snapshotSequenceNumber ≤ last).map Prod.snd

/-- The snapshots a node has persisted, oldest first. Paths name the table and the WAL file they
come from. -/
structure OwnHistory (tableOf : String → TableKey) (snapshots : List PersistedSnapshot) : Prop where
  owned : ∀ s ∈ snapshots, (Manifest.wal s).Owned tableOf
  gen1 : ∀ s ∈ snapshots, ∀ entry ∈ s.added, (parseGen1Path entry.2.path).isSome
  ordered : snapshots.Pairwise fun s t => s.snapshotSequenceNumber < t.snapshotSequenceNumber
  positive : ∀ s ∈ snapshots, 0 < s.snapshotSequenceNumber
  consistent : Consistent snapshots

/-- How snapshots are filed in checkpoints. -/
structure Filing (snapshots : List PersistedSnapshot) (filed : List Dated)
    (checkpoints : List PersistedSnapshotCheckpoint) : Prop where
  known : ∀ dated ∈ filed, dated.2 ∈ snapshots
  ordered : filed.Pairwise fun a b =>
    a.2.snapshotSequenceNumber < b.2.snapshotSequenceNumber ∧ a.1 ≤ b.1
  records : ∀ checkpoint ∈ checkpoints,
    Records (filedIn filed checkpoint.yearMonth checkpoint.lastSnapshotSequenceNumber) checkpoint
  stamped : ∀ checkpoint ∈ checkpoints, ∃ dated ∈ filed, dated.1 = checkpoint.yearMonth ∧
    dated.2.snapshotSequenceNumber = checkpoint.lastSnapshotSequenceNumber
  complete : ∀ checkpoint ∈ checkpoints, ∀ s ∈ snapshots, s.Lists →
    s.snapshotSequenceNumber ≤ checkpoint.lastSnapshotSequenceNumber → ∃ month, (month, s) ∈ filed

/-- One of the checkpoints has the snapshot. -/
def Checkpointed (checkpoints : List PersistedSnapshotCheckpoint) (dated : Dated) : Prop :=
  ∃ checkpoint ∈ checkpoints, checkpoint.yearMonth = dated.1 ∧
    dated.2.snapshotSequenceNumber ≤ checkpoint.lastSnapshotSequenceNumber
deriving Decidable

/-- The months before a checkpoint's are complete. -/
def Sealed (filed : List Dated) (checkpoints : List PersistedSnapshotCheckpoint)
    (month : YearMonth) : Prop :=
  ∀ dated ∈ filed, dated.1 < month → Checkpointed checkpoints dated

section History

variable {tableOf : String → TableKey} {snapshots : List PersistedSnapshot}
variable {s t : PersistedSnapshot} {key : TableKey} {path : String}

theorem mem_filedIn {filed : List Dated} {month : YearMonth} {last : Nat} :
    s ∈ filedIn filed month last ↔
      (month, s) ∈ filed ∧ s.snapshotSequenceNumber ≤ last := by
  simp only [filedIn, mem_map, mem_filter, decide_eq_true_eq]
  constructor
  · rintro ⟨dated, ⟨hdated, rfl, hle⟩, rfl⟩
    exact ⟨hdated, hle⟩
  · rintro ⟨hdated, hle⟩
    exact ⟨(month, s), ⟨hdated, rfl, hle⟩, rfl⟩

theorem PersistedSnapshot.mem_adds_iff : (key, path) ∈ (Manifest.wal s).adds ↔
    ∃ entry ∈ s.added, (entry.1, entry.2.path) = (key, path) := by
  change (key, path) ∈ s.databases.paths ↔ _
  rw [← DatabaseTables.paths_entries]
  exact mem_map

theorem PersistedSnapshot.mem_removes_iff : (key, path) ∈ (Manifest.wal s).removes ↔
    ∃ entry ∈ s.removed, (entry.1, entry.2.path) = (key, path) := by
  change (key, path) ∈ s.removedFiles.paths ↔ _
  rw [← DatabaseTables.paths_entries]
  exact mem_map

/-- Files of a view that the snapshots leave. -/
theorem foldl_addPersistedSnapshotFiles (inner : Inner) :
    snapshots.foldl Inner.addPersistedSnapshotFiles inner =
      (snapshots.map Manifest.wal).foldl Inner.fold inner := by
  rw [List.foldl_map]
  rfl

theorem OwnHistory.fileId_iff_path (hhistory : OwnHistory tableOf snapshots) (hs : s ∈ snapshots)
    (ht : t ∈ snapshots) {entry gone : TableKey × ParquetFile} (hentry : entry ∈ s.added)
    (hgone : gone ∈ t.removed) : fileId entry = fileId gone ↔ entry.2.path = gone.2.path :=
  (hhistory.consistent.2.2 s hs t ht entry hentry gone hgone).1

theorem OwnHistory.le_of_removes (hhistory : OwnHistory tableOf snapshots) (hs : s ∈ snapshots)
    (ht : t ∈ snapshots) (hadds : (key, path) ∈ (Manifest.wal s).adds)
    (hremoves : (key, path) ∈ (Manifest.wal t).removes) :
    s.snapshotSequenceNumber ≤ t.snapshotSequenceNumber := by
  obtain ⟨entry, hentry, heq⟩ := mem_adds_iff.mp hadds
  obtain ⟨gone, hgone, heq'⟩ := mem_removes_iff.mp hremoves
  refine (hhistory.consistent.2.2 s hs t ht entry hentry gone hgone).2 ?_
  exact (congrArg Prod.snd heq).trans (congrArg Prod.snd heq').symm

/-- The fold of all snapshots in order keeps what one adds and none removes. -/
theorem OwnHistory.mem_newFromPersistedSnapshots (hhistory : OwnHistory tableOf snapshots) :
    (key, path) ∈ (Inner.newFromPersistedSnapshots snapshots).files.paths ↔
      key = tableOf path ∧ (∃ s ∈ snapshots, (key, path) ∈ (Manifest.wal s).adds) ∧
        ¬∃ s ∈ snapshots, (key, path) ∈ (Manifest.wal s).removes := by
  have howned : ∀ m ∈ snapshots.map Manifest.wal, m.Owned tableOf := by
    rw [forall_mem_map]
    exact hhistory.owned
  have hkeeps : (Inner.newFromPersistedSnapshots snapshots).Owned tableOf := by
    rw [Inner.newFromPersistedSnapshots, foldl_addPersistedSnapshotFiles]
    refine foldl_keeps _ (fun inner m hm hinner => hinner.fold (howned m hm)) ?_
    simp [Inner.Owned, Files.paths]
  have hlive : path ∈ ((Inner.newFromPersistedSnapshots snapshots).view tableOf).live ↔
      (∃ s ∈ snapshots, (tableOf path, path) ∈ (Manifest.wal s).adds) ∧
        ¬∃ s ∈ snapshots, (tableOf path, path) ∈ (Manifest.wal s).removes := by
    rw [Inner.newFromPersistedSnapshots, foldl_addPersistedSnapshotFiles, view_foldl _ howned,
      view_empty]
    refine (TombstoneSet.mem_live_of_ordered (Set.notMem_empty path) ?_).trans ?_
    · simp only [pairwise_map]
      refine hhistory.ordered.imp_of_mem fun {s t} hs ht hlt hadds hremoves => ?_
      exact absurd (hhistory.le_of_removes ht hs hadds hremoves) (not_le.mpr hlt)
    · rw [← mem_added_replay, ← mem_removed_replay]
      refine and_congr_left fun _ => ?_
      exact or_iff_right (Set.notMem_empty path)
  constructor
  · intro hmem
    have hkey : key = tableOf path := hkeeps _ hmem
    subst hkey
    exact ⟨rfl, hlive.mp hmem⟩
  · rintro ⟨rfl, hrest⟩
    exact hlive.mpr hrest

end History

namespace OwnObjects

variable {objects : OwnObjects} {snapshotsToLoad : Nat} {s : PersistedSnapshot}

theorem overlapping_zero (checkpoints : List PersistedSnapshotCheckpoint) :
    overlapping 0 checkpoints = checkpoints := by
  induction checkpoints with
  | nil => rfl
  | cons checkpoint rest ih => rw [overlapping, if_pos (.inl (Nat.zero_le _)), ih]

/-- The checkpoint a month is loaded from is the latest one. -/
theorem exists_latestPerMonth {checkpoint : PersistedSnapshotCheckpoint}
    (hcheckpoint : checkpoint ∈ objects.checkpoints) :
    ∃ latest ∈ objects.latestPerMonth, latest.yearMonth = checkpoint.yearMonth ∧
      checkpoint.lastSnapshotSequenceNumber ≤ latest.lastSnapshotSequenceNumber := by
  have hmem : checkpoint ∈ (objects.checkpoints.filter fun other =>
      other.yearMonth = checkpoint.yearMonth).insertionSort fun a b =>
        b.lastSnapshotSequenceNumber ≤ a.lastSnapshotSequenceNumber :=
    (mem_insertionSort _).mpr (mem_filter.mpr ⟨hcheckpoint, by simp⟩)
  have hsorted := pairwise_insertionSort (fun a b : PersistedSnapshotCheckpoint =>
    b.lastSnapshotSequenceNumber ≤ a.lastSnapshotSequenceNumber)
      (objects.checkpoints.filter fun other => other.yearMonth = checkpoint.yearMonth)
  cases hlist : (objects.checkpoints.filter fun other =>
      other.yearMonth = checkpoint.yearMonth).insertionSort fun a b =>
        b.lastSnapshotSequenceNumber ≤ a.lastSnapshotSequenceNumber with
  | nil => simp [hlist] at hmem
  | cons latest rest =>
    have hlatest := (mem_insertionSort _).mp (hlist ▸ mem_cons_self)
    refine ⟨latest, mem_filterMap.mpr ⟨checkpoint.yearMonth, ?_, by rw [hlist]; rfl⟩,
      by simpa using (mem_filter.mp hlatest).2, ?_⟩
    · exact (mem_insertionSort _).mpr (mem_dedup.mpr (mem_map_of_mem hcheckpoint))
    · rw [hlist] at hmem hsorted
      rcases mem_cons.mp hmem with rfl | hrest
      · exact le_rfl
      · exact (pairwise_cons.mp hsorted).1 checkpoint hrest

section Window

variable (hordered : objects.snapshots.Pairwise fun s t =>
    s.snapshotSequenceNumber < t.snapshotSequenceNumber)
variable (hpositive : ∀ s ∈ objects.snapshots, 0 < s.snapshotSequenceNumber)
variable (hwindow : ∀ s ∈ objects.snapshots, s.snapshotSequenceNumber ≤ snapshotsToLoad)

include hordered hpositive hwindow in
theorem length_le_of_window : objects.snapshots.length ≤ snapshotsToLoad := by
  have hnodup : (objects.snapshots.map (·.snapshotSequenceNumber)).Nodup :=
    pairwise_map.mpr (hordered.imp fun h => h.ne)
  have hsubset : objects.snapshots.map (·.snapshotSequenceNumber) ⊆
      List.range' 1 snapshotsToLoad := by
    intro number hnumber
    obtain ⟨s, hs, rfl⟩ := mem_map.mp hnumber
    have hpos := hpositive s hs
    have hle := hwindow s hs
    rw [mem_range'_1]
    omega
  have hlength := (subperm_of_subset hnodup hsubset).length_le
  rwa [length_map, length_range'] at hlength

include hordered hpositive hwindow in
theorem mem_loadSnapshots_of_window : s ∈ objects.loadSnapshots snapshotsToLoad ↔
    s ∈ objects.snapshots := by
  have hlength := length_le_of_window hordered hpositive hwindow
  rw [loadSnapshots, take_of_length_le (by simpa using hlength), mem_insertionSort]

include hwindow in
theorem bootCheckpoints_of_window :
    objects.bootCheckpoints snapshotsToLoad = objects.latestPerMonth := by
  unfold bootCheckpoints sequenceCutoff
  cases hlatest : (objects.loadSnapshots 1).head? with
  | none => rfl
  | some latest =>
    have hmem : latest ∈ objects.snapshots := mem_loadSnapshots (mem_of_mem_head? hlatest)
    rw [Option.map_some, Nat.sub_eq_zero_of_le (hwindow latest hmem)]
    exact overlapping_zero _

include hordered hpositive hwindow in
/-- The snapshots that are replayed are those after every checkpoint. -/
theorem mem_bootSnapshots_of_window : s ∈ objects.bootSnapshots snapshotsToLoad ↔
    s ∈ objects.snapshots ∧ ∀ checkpoint ∈ objects.checkpoints,
      checkpoint.lastSnapshotSequenceNumber < s.snapshotSequenceNumber := by
  have hloaded : s ∈ objects.loadSnapshots snapshotsToLoad ↔ s ∈ objects.snapshots :=
    mem_loadSnapshots_of_window hordered hpositive hwindow
  unfold bootSnapshots
  rw [bootCheckpoints_of_window hwindow]
  split
  case h_1 hnone =>
    rw [max?_eq_none_iff, map_eq_nil_iff] at hnone
    have hempty : ∀ checkpoint, checkpoint ∉ objects.checkpoints := by
      intro checkpoint hcheckpoint
      obtain ⟨latest, hlatest, _⟩ := exists_latestPerMonth hcheckpoint
      simp [hnone] at hlatest
    exact hloaded.trans ⟨fun h => ⟨h, fun c hc => absurd hc (hempty c)⟩, fun h => h.1⟩
  case h_2 last hlast =>
    obtain ⟨hmem, hmax⟩ := max?_eq_some_iff.mp hlast
    rw [loadSnapshotsAfter, mem_filter, hloaded, decide_eq_true_eq]
    refine and_congr_right fun _ => ⟨fun hlt checkpoint hcheckpoint => ?_, fun hall => ?_⟩
    · obtain ⟨latest, hlatest, _, hle⟩ := exists_latestPerMonth hcheckpoint
      have hbound := hmax _ (mem_map_of_mem hlatest)
      omega
    · obtain ⟨latest, hlatest, rfl⟩ := mem_map.mp hmem
      exact hall latest (mem_latestPerMonth hlatest)

end Window

end OwnObjects

section Filing

variable {tableOf : String → TableKey} {snapshots : List PersistedSnapshot} {filed : List Dated}
variable {checkpoints : List PersistedSnapshotCheckpoint} {checkpoint : PersistedSnapshotCheckpoint}
variable {s t : PersistedSnapshot} {entry entry' : TableKey × ParquetFile}

section

variable (hfiling : Filing snapshots filed checkpoints)
include hfiling

theorem Filing.month_unique {month month' : YearMonth}
    (hdated : (month, s) ∈ filed) (hdated' : (month', s) ∈ filed) : month = month' := by
  have hnodup : (filed.map Prod.snd).Nodup := pairwise_map.mpr
    (hfiling.ordered.imp fun h heq => h.1.ne (congrArg (·.snapshotSequenceNumber) heq))
  exact congrArg Prod.fst (inj_on_of_nodup_map hnodup hdated hdated' rfl)

theorem Filing.month_le {month month' : YearMonth}
    (hdated : (month, s) ∈ filed) (hdated' : (month', t) ∈ filed)
    (hle : s.snapshotSequenceNumber ≤ t.snapshotSequenceNumber) : month ≤ month' := by
  by_cases hsame : ((month, s) : Dated) = (month', t)
  · exact (congrArg Prod.fst hsame).le
  · have hsymm : Std.Symm fun a b : Dated =>
        (a.2.snapshotSequenceNumber ≤ b.2.snapshotSequenceNumber → a.1 ≤ b.1) ∧
          (b.2.snapshotSequenceNumber ≤ a.2.snapshotSequenceNumber → b.1 ≤ a.1) :=
      ⟨fun _ _ h => h.symm⟩
    have hpairs : filed.Pairwise fun a b =>
        (a.2.snapshotSequenceNumber ≤ b.2.snapshotSequenceNumber → a.1 ≤ b.1) ∧
          (b.2.snapshotSequenceNumber ≤ a.2.snapshotSequenceNumber → b.1 ≤ a.1) :=
      hfiling.ordered.imp fun h => ⟨fun _ => h.2, fun hge => absurd h.1 (not_lt.mpr hge)⟩
    exact (hpairs.forall hdated hdated' hsame).1 hle

theorem Filing.source
    (hcheckpoint : checkpoint ∈ checkpoints) (hentry : entry ∈ checkpoint.databases) :
    ∃ s, (checkpoint.yearMonth, s) ∈ filed ∧ entry ∈ s.added ∧
      s.snapshotSequenceNumber ≤ checkpoint.lastSnapshotSequenceNumber := by
  obtain ⟨s, hs, hadded⟩ := (((hfiling.records checkpoint hcheckpoint).databases entry).mp hentry).1
  obtain ⟨hdated, hle⟩ := mem_filedIn.mp hs
  exact ⟨s, hdated, hadded, hle⟩

end

/-- The objects of a node whose snapshots are filed are a directory in order. -/
def Filing.directory (hhistory : OwnHistory tableOf snapshots)
    (hfiling : Filing snapshots filed checkpoints) : NodeDirectory where
  snapshots := snapshots
  checkpoints := checkpoints
  compactions := []
  compactions_distinct := nodup_nil
  snapshots_distinct := pairwise_map.mpr (hhistory.ordered.imp fun h => h.ne)
  listed checkpoint hcheckpoint entry hentry := by
    obtain ⟨s, hdated, hadded, hle⟩ := hfiling.source hcheckpoint hentry
    exact ⟨s, hfiling.known _ hdated, hle, hadded⟩
  numbered checkpoint hcheckpoint := by
    have hnodup := (hfiling.records checkpoint hcheckpoint).nodup
    exact pairwise_map.mpr ((pairwise_map.mp hnodup).imp fun h heq =>
      h (congrArg Prod.snd heq))
  apart checkpoint hcheckpoint other hother hne entry hentry entry' hentry' hslot := by
    obtain ⟨s, hdated, hadded, _⟩ := hfiling.source hcheckpoint hentry
    obtain ⟨t, hdated', hadded', _⟩ := hfiling.source hother hentry'
    obtain rfl : s = t := hhistory.consistent.snapshot_eq (hfiling.known _ hdated)
      (hfiling.known _ hdated') hadded hadded' (congrArg Prod.snd hslot)
    exact hne (hfiling.month_unique hdated hdated')

/-- A snapshot below the number of some checkpoint is in the checkpoint of its month. -/
theorem Filing.checkpointed (hfiling : Filing snapshots filed checkpoints)
    (hsealed : ∀ checkpoint ∈ checkpoints, Sealed filed checkpoints checkpoint.yearMonth)
    (hcheckpoint : checkpoint ∈ checkpoints) (hs : s ∈ snapshots) (hlists : s.Lists)
    (hle : s.snapshotSequenceNumber ≤ checkpoint.lastSnapshotSequenceNumber) :
    ∃ month, (month, s) ∈ filed ∧ Checkpointed checkpoints (month, s) := by
  obtain ⟨month, hdated⟩ := hfiling.complete checkpoint hcheckpoint s hs hlists hle
  refine ⟨month, hdated, ?_⟩
  obtain ⟨stamp, hstamp, hmonth, hnumber⟩ := hfiling.stamped checkpoint hcheckpoint
  have hmonths : month ≤ checkpoint.yearMonth := by
    rw [← hmonth]
    exact hfiling.month_le hdated hstamp (hnumber ▸ hle)
  rcases hmonths.eq_or_lt with rfl | hlt
  · exact ⟨checkpoint, hcheckpoint, rfl, hle⟩
  · exact hsealed checkpoint hcheckpoint (month, s) hdated hlt

theorem mem_tail_of_lt {later : PersistedSnapshotCheckpoint}
    (hpairwise : checkpoints.Pairwise fun a b => a.yearMonth < b.yearMonth)
    (hcheckpoint : checkpoint ∈ checkpoints) (hlater : later ∈ checkpoints)
    (hlt : checkpoint.yearMonth < later.yearMonth) : later ∈ checkpoints.tail := by
  cases checkpoints with
  | nil => simp at hlater
  | cons first rest =>
    obtain ⟨hfirst, _⟩ := pairwise_cons.mp hpairwise
    rcases mem_cons.mp hlater with rfl | hrest
    · rcases mem_cons.mp hcheckpoint with rfl | hmem
      · exact absurd hlt (lt_irrefl _)
      · exact absurd (hfirst checkpoint hmem) hlt.asymm
    · exact hrest

section Listing

variable (group : PersistedSnapshotCheckpoint → List PersistedSnapshot)
variable (hhistory : OwnHistory tableOf snapshots)
variable (hmonths : checkpoints.Pairwise fun a b => a.yearMonth < b.yearMonth)
variable (hrecords : ∀ c ∈ checkpoints, Records (group c) c ∧ group c ⊆ snapshots)
variable (hgroups : ∀ c ∈ checkpoints, ∀ c' ∈ checkpoints, ∀ s ∈ group c, s ∈ group c' →
    c.yearMonth = c'.yearMonth)

include hhistory hmonths hrecords hgroups in
/-- Checkpoints list together what a snapshot of one adds and none of it, or of a later one,
removes. -/
theorem listed_iff : PersistedSnapshotCheckpoint.Listed checkpoints entry ↔
    ∃ c ∈ checkpoints, ∃ s ∈ group c, entry ∈ s.added ∧
      ∀ later ∈ checkpoints, c.yearMonth ≤ later.yearMonth → ∀ t ∈ group later,
        fileId entry ∉ t.removed.map fileId := by
  constructor
  · rintro ⟨c, hc, hentry, huncancelled⟩
    obtain ⟨⟨s, hs, hadded⟩, hunremoved⟩ := ((hrecords c hc).1.databases entry).mp hentry
    refine ⟨c, hc, s, hs, hadded, fun later hlater hle t ht hid => ?_⟩
    have hsnapshot := (hrecords c hc).2 hs
    have htaken := (hrecords later hlater).2 ht
    rcases hle.eq_or_lt with hsame | hlt
    · -- the removal is in the same checkpoint, which then does not list the file
      obtain rfl : c = later := by
        refine inj_on_of_nodup_map (f := (·.yearMonth)) ?_ hc hlater hsame
        exact pairwise_map.mpr (hmonths.imp fun h => h.ne)
      exact hunremoved ⟨t, ht, hid⟩
    · -- the removal is pending in the checkpoint of a later month
      obtain ⟨gone, hgone, hid⟩ := mem_map.mp hid
      refine huncancelled later (mem_tail_of_lt hmonths hc hlater hlt) hle ?_
      rcases (hrecords later hlater).1.found t ht gone hgone with ⟨u, hu, hadds⟩ | hpending
      · obtain ⟨other, hother, hotherId⟩ := mem_map.mp hadds
        obtain rfl : s = u := hhistory.consistent.snapshot_eq hsnapshot
          ((hrecords later hlater).2 hu) hadded hother (hid.symm.trans hotherId.symm)
        exact absurd (hgroups c hc later hlater s hs hu) hlt.ne
      · refine mem_map.mpr ⟨gone, hpending, Prod.ext ?_ hid⟩
        have howner := (hhistory.owned s hsnapshot).of_mem_adds
          (mem_adds_iff.mpr ⟨entry, hadded, rfl⟩)
        have howner' := (hhistory.owned t htaken).of_mem_removes
          (mem_removes_iff.mpr ⟨gone, hgone, rfl⟩)
        rw [slot, slot, howner, howner',
          (hhistory.fileId_iff_path hsnapshot htaken hadded hgone).mp hid.symm]
  · rintro ⟨c, hc, s, hs, hadded, hunremoved⟩
    refine ⟨c, hc, ((hrecords c hc).1.databases entry).mpr ⟨⟨s, hs, hadded⟩, ?_⟩, ?_⟩
    · rintro ⟨t, ht, hid⟩
      exact hunremoved c hc le_rfl t ht hid
    · intro later hlater hle hcancels
      obtain ⟨gone, hpending, hslot⟩ := mem_map.mp hcancels
      have hmem := mem_of_mem_tail hlater
      obtain ⟨t, ht, hgone⟩ := (hrecords later hmem).1.pending gone hpending
      exact hunremoved later hmem hle t ht (mem_map.mpr ⟨gone, hgone, congrArg Prod.snd hslot⟩)

include hhistory hmonths hrecords hgroups in
theorem mem_merged_iff : entry ∈ (Inner.newFromCheckpointsAndSnapshots checkpoints []).files ↔
    ∃ c ∈ checkpoints, ∃ s ∈ group c, entry ∈ s.added ∧
      ∀ later ∈ checkpoints, c.yearMonth ≤ later.yearMonth → ∀ t ∈ group later,
        fileId entry ∉ t.removed.map fileId := by
  refine (PersistedSnapshotCheckpoint.mem_newFromCheckpoints_iff hmonths ?_).trans
    (listed_iff group hhistory hmonths hrecords hgroups)
  rw [map_flatMap, nodup_flatMap]
  refine ⟨fun c hc => ?_, hmonths.imp_of_mem fun {a b} ha hb hlt => ?_⟩
  · exact pairwise_map.mpr ((pairwise_map.mp (hrecords c hc).1.nodup).imp fun h heq =>
      h (congrArg Prod.snd heq))
  · intro target hinA hinB
    obtain ⟨entry, hentry, rfl⟩ := mem_map.mp hinA
    obtain ⟨entry', hentry', hslot⟩ := mem_map.mp hinB
    obtain ⟨s, hs, hadded⟩ := (((hrecords a ha).1.databases entry).mp hentry).1
    obtain ⟨t, ht, hadded'⟩ := (((hrecords b hb).1.databases entry').mp hentry').1
    obtain rfl : s = t := hhistory.consistent.snapshot_eq ((hrecords a ha).2 hs)
      ((hrecords b hb).2 ht) hadded hadded' (congrArg Prod.snd hslot).symm
    exact hlt.ne (hgroups a ha b hb s hs ht)

end Listing

section Restart

variable {objects : OwnObjects} (hhistory : OwnHistory tableOf objects.snapshots)
variable (hfiling : Filing objects.snapshots filed objects.checkpoints)
variable (hsealed : ∀ checkpoint ∈ objects.checkpoints,
    Sealed filed objects.checkpoints checkpoint.yearMonth)
variable {key : TableKey} {path : String}

theorem Checkpointed.latest {month : YearMonth}
    (hcheckpointed : Checkpointed objects.checkpoints (month, s)) :
    ∃ latest ∈ objects.latestPerMonth,
      latest.yearMonth = month ∧
        s.snapshotSequenceNumber ≤ latest.lastSnapshotSequenceNumber := by
  obtain ⟨checkpoint, hcheckpoint, rfl, hle⟩ := hcheckpointed
  obtain ⟨latest, hlatest, hmonth, hbound⟩ :
      ∃ latest ∈ objects.latestPerMonth,
        latest.yearMonth = checkpoint.yearMonth ∧
          checkpoint.lastSnapshotSequenceNumber ≤ latest.lastSnapshotSequenceNumber :=
    OwnObjects.exists_latestPerMonth hcheckpoint
  exact ⟨latest, hlatest, hmonth, hle.trans hbound⟩

include hhistory hfiling in
theorem listed_latestPerMonth_iff :
    PersistedSnapshotCheckpoint.Listed objects.latestPerMonth entry ↔
      ∃ c ∈ objects.latestPerMonth,
        ∃ s ∈ filedIn filed c.yearMonth c.lastSnapshotSequenceNumber, entry ∈ s.added ∧
          ∀ later ∈ objects.latestPerMonth, c.yearMonth ≤ later.yearMonth →
            ∀ t ∈ filedIn filed later.yearMonth later.lastSnapshotSequenceNumber,
              fileId entry ∉ t.removed.map fileId := by
  refine listed_iff _ hhistory OwnObjects.latestPerMonth_pairwise (fun c hc => ?_) ?_
  · exact ⟨hfiling.records c (OwnObjects.mem_latestPerMonth hc), fun s hs =>
      hfiling.known _ (mem_filedIn.mp hs).1⟩
  · exact fun c _ c' _ s hs hs' =>
      hfiling.month_unique (mem_filedIn.mp hs).1 (mem_filedIn.mp hs').1

include hhistory hfiling hsealed in
/-- A file that no snapshot removes is listed by the merged checkpoints, unless its snapshot comes
after all of them. -/
theorem listed_of_kept (hs : s ∈ objects.snapshots) (hentry : entry ∈ s.added)
    (hkept : ∀ t ∈ objects.snapshots, ∀ gone ∈ t.removed, entry.2.path ≠ gone.2.path)
    (hbefore : ∃ checkpoint ∈ objects.checkpoints,
      s.snapshotSequenceNumber ≤ checkpoint.lastSnapshotSequenceNumber) :
    PersistedSnapshotCheckpoint.Listed objects.latestPerMonth entry := by
  obtain ⟨checkpoint, hcheckpoint, hle⟩ := hbefore
  obtain ⟨month, hdated, hcheckpointed⟩ := hfiling.checkpointed hsealed hcheckpoint hs
    (.inl (ne_nil_of_mem hentry)) hle
  obtain ⟨latest, hlatest, rfl, hbound⟩ := hcheckpointed.latest
  refine (listed_latestPerMonth_iff hhistory hfiling).mpr
    ⟨latest, hlatest, s, mem_filedIn.mpr ⟨hdated, hbound⟩, hentry, fun _ _ _ t ht hid => ?_⟩
  obtain ⟨gone, hgone, hsame⟩ := mem_map.mp hid
  have hknown := hfiling.known _ (mem_filedIn.mp ht).1
  exact hkept t hknown gone hgone
    ((hhistory.fileId_iff_path hs hknown hentry hgone).mp hsame.symm)

include hhistory hfiling hsealed in
/-- No snapshot up to the last checkpoint removes a file that the merged checkpoints list. -/
theorem kept_of_listed (hlisted : PersistedSnapshotCheckpoint.Listed objects.latestPerMonth entry)
    (ht : t ∈ objects.snapshots) {gone : TableKey × ParquetFile} (hgone : gone ∈ t.removed)
    (hbefore : ∃ checkpoint ∈ objects.checkpoints,
      t.snapshotSequenceNumber ≤ checkpoint.lastSnapshotSequenceNumber) :
    entry.2.path ≠ gone.2.path := by
  intro hpath
  obtain ⟨checkpoint, _, s, hfiled, hadded, hunremoved⟩ :=
    (listed_latestPerMonth_iff hhistory hfiling).mp hlisted
  have hdated := (mem_filedIn.mp hfiled).1
  have hs := hfiling.known _ hdated
  obtain ⟨last, hlast, hbound⟩ := hbefore
  obtain ⟨month, hdated', hcheckpointed⟩ := hfiling.checkpointed hsealed hlast ht
    (.inr (ne_nil_of_mem hgone)) hbound
  obtain ⟨latest, hlatest, rfl, hnumber⟩ := hcheckpointed.latest
  refine hunremoved latest hlatest (hfiling.month_le hdated hdated'
    ((hhistory.consistent.2.2 s hs t ht entry hadded gone hgone).2 hpath)) t
    (mem_filedIn.mpr ⟨hdated', hnumber⟩) (mem_map.mpr ⟨gone, hgone, ?_⟩)
  exact ((hhistory.fileId_iff_path hs ht hadded hgone).mpr hpath).symm

variable {snapshotsToLoad : Nat}
variable (hwindow : ∀ s ∈ objects.snapshots, s.snapshotSequenceNumber ≤ snapshotsToLoad)

include hhistory hfiling hsealed hwindow in
/-- What the merged checkpoints list and the snapshots after them leave is what all snapshots
leave, for a writer's path. -/
theorem sources_iff (key : TableKey) (path : String) :
    (((key, path) ∈ (objects.start snapshotsToLoad).files.paths ∨
        ∃ s ∈ objects.bootSnapshots snapshotsToLoad,
          (key, path) ∈ (Manifest.wal s).adds) ∧
      ¬∃ s ∈ objects.bootSnapshots snapshotsToLoad,
        (key, path) ∈ (Manifest.wal s).removes) ↔
    (∃ s ∈ objects.snapshots, (key, path) ∈ (Manifest.wal s).adds) ∧
      ¬∃ s ∈ objects.snapshots, (key, path) ∈ (Manifest.wal s).removes := by
  have hcheckpoints : objects.bootCheckpoints snapshotsToLoad =
      objects.latestPerMonth :=
    OwnObjects.bootCheckpoints_of_window hwindow
  have hstart : (key, path) ∈
      (objects.start snapshotsToLoad).files.paths ↔
        ∃ entry, PersistedSnapshotCheckpoint.Listed
          objects.latestPerMonth entry ∧
            (entry.1, entry.2.path) = (key, path) := by
    have hfiles : ∀ entry, entry ∈
        (objects.start snapshotsToLoad).files ↔
          PersistedSnapshotCheckpoint.Listed (objects.bootCheckpoints snapshotsToLoad) entry :=
      fun entry => @NodeDirectory.mem_start_files (hfiling.directory hhistory) snapshotsToLoad entry
    simp only [Files.paths, mem_map, hfiles, hcheckpoints]
  have hboot (s : PersistedSnapshot) :
      s ∈ objects.bootSnapshots snapshotsToLoad ↔
        s ∈ objects.snapshots ∧ ∀ checkpoint ∈ objects.checkpoints,
          checkpoint.lastSnapshotSequenceNumber < s.snapshotSequenceNumber :=
    OwnObjects.mem_bootSnapshots_of_window hhistory.ordered hhistory.positive hwindow
  rw [hstart]
  constructor
  · rintro ⟨hsource, hnot⟩
    have hkept (t : PersistedSnapshot) (ht : t ∈ objects.snapshots)
        (hremoves : (key, path) ∈ (Manifest.wal t).removes) : ∃ checkpoint ∈ objects.checkpoints,
          t.snapshotSequenceNumber ≤ checkpoint.lastSnapshotSequenceNumber := by
      by_contra hnone
      push Not at hnone
      exact hnot ⟨t, (hboot t).mpr ⟨ht, hnone⟩, hremoves⟩
    rcases hsource with ⟨entry, hlisted, heq⟩ | ⟨s, hs, hadds⟩
    · have hfile := hlisted
      obtain ⟨checkpoint, hcheckpoint, hentry, _⟩ := hfile
      obtain ⟨s, hdated, hadded, _⟩ :=
        hfiling.source (OwnObjects.mem_latestPerMonth hcheckpoint) hentry
      refine ⟨⟨s, hfiling.known _ hdated, mem_adds_iff.mpr ⟨entry, hadded, heq⟩⟩,
        ?_⟩
      rintro ⟨t, ht, hremoves⟩
      obtain ⟨gone, hgone, heq'⟩ := mem_removes_iff.mp hremoves
      exact kept_of_listed hhistory hfiling hsealed hlisted ht hgone (hkept t ht hremoves)
        ((congrArg Prod.snd heq).trans (congrArg Prod.snd heq').symm)
    · obtain ⟨hmem, hafter⟩ := (hboot s).mp hs
      refine ⟨⟨s, hmem, hadds⟩, ?_⟩
      rintro ⟨t, ht, hremoves⟩
      obtain ⟨checkpoint, hcheckpoint, hle⟩ := hkept t ht hremoves
      have hlt := hafter checkpoint hcheckpoint
      have hge := hhistory.le_of_removes hmem ht hadds hremoves
      omega
  · rintro ⟨⟨s, hs, hadds⟩, hnever⟩
    refine ⟨?_, mt ?_ hnever⟩
    swap
    · rintro ⟨t, ht, hremoves⟩
      exact ⟨t, ((hboot t).mp ht).1, hremoves⟩
    by_cases hbefore : ∃ checkpoint ∈ objects.checkpoints,
        s.snapshotSequenceNumber ≤ checkpoint.lastSnapshotSequenceNumber
    · obtain ⟨entry, hentry, heq⟩ := mem_adds_iff.mp hadds
      refine .inl ⟨entry, listed_of_kept hhistory hfiling hsealed hs hentry ?_ hbefore, heq⟩
      intro t ht gone hgone hpath
      refine hnever ⟨t, ht, mem_removes_iff.mpr ⟨gone, hgone, ?_⟩⟩
      have howner := (hhistory.owned s hs).of_mem_adds hadds
      have howner' := (hhistory.owned t ht).of_mem_removes
        (mem_removes_iff.mpr ⟨gone, hgone, rfl⟩)
      have hpath' : gone.2.path = path := hpath.symm.trans (congrArg Prod.snd heq)
      rw [howner', hpath', howner]
    · push Not at hbefore
      exact .inr ⟨s, (hboot s).mpr ⟨hs, hbefore⟩, hadds⟩

section Load

include hhistory hfiling

/-- What the merged checkpoints list was added by one snapshot, which is not replayed. -/
theorem exists_of_mem_start (hstart : (key, path) ∈ (objects.start snapshotsToLoad).files.paths) :
    ∃ s ∈ objects.snapshots, (key, path) ∈ (Manifest.wal s).adds ∧
      s ∉ objects.bootSnapshots snapshotsToLoad :=
  @NodeDirectory.source_of_mem_start (hfiling.directory hhistory) snapshotsToLoad key path hstart

omit hfiling in
theorem owned_bootSnapshots : ∀ m ∈ (objects.bootSnapshots snapshotsToLoad).map Manifest.wal,
    m.Owned tableOf := by
  rw [forall_mem_map]
  exact fun s hs => hhistory.owned s (OwnObjects.mem_bootSnapshots hs)

theorem owned_loadPersistedFiles :
    (objects.loadPersistedFiles snapshotsToLoad).Owned tableOf := by
  rw [OwnObjects.loadPersistedFiles_eq, foldl_addPersistedSnapshotFiles]
  refine foldl_keeps _ (fun inner m hm hinner => hinner.fold
    (owned_bootSnapshots hhistory m hm)) ?_
  rintro ⟨key, path⟩ hentry
  obtain ⟨s, hs, hadds, _⟩ := exists_of_mem_start hhistory hfiling hentry
  exact (hhistory.owned s hs).of_mem_adds hadds

omit hfiling in
theorem adder_unique (hs : s ∈ objects.snapshots) (ht : t ∈ objects.snapshots)
    (hadds : (key, path) ∈ (Manifest.wal s).adds) (hadds' : (key, path) ∈ (Manifest.wal t).adds) :
    s = t := by
  obtain ⟨entry, hentry, heq⟩ := mem_adds_iff.mp hadds
  obtain ⟨entry', hentry', heq'⟩ := mem_adds_iff.mp hadds'
  exact snapshot_eq_of_nodup hhistory.consistent.2.1 hs ht hentry hentry'
    ((congrArg Prod.snd heq).trans (congrArg Prod.snd heq').symm)

omit hfiling in
theorem gen1_of_adds (hs : s ∈ objects.snapshots) (hadds : (key, path) ∈ (Manifest.wal s).adds) :
    (parseGen1Path path).isSome := by
  obtain ⟨entry, hentry, heq⟩ := mem_adds_iff.mp hadds
  have hpath : entry.2.path = path := congrArg Prod.snd heq
  exact hpath ▸ hhistory.gen1 s hs entry hentry

/-- What is live at startup was listed or is added by a replayed snapshot, and none of those
removes it. -/
theorem mem_live_loadPersistedFiles :
    path ∈ ((objects.loadPersistedFiles snapshotsToLoad).view tableOf).live ↔
      ((tableOf path, path) ∈ (objects.start snapshotsToLoad).files.paths ∨
        ∃ s ∈ objects.bootSnapshots snapshotsToLoad,
          (tableOf path, path) ∈ (Manifest.wal s).adds) ∧
      ¬∃ s ∈ objects.bootSnapshots snapshotsToLoad,
        (tableOf path, path) ∈ (Manifest.wal s).removes := by
  have hunburied : path ∉ ((objects.start snapshotsToLoad).view tableOf).buried := by
    change path ∉ (objects.start snapshotsToLoad).removedTombstones
    rw [OwnObjects.start_tombstones]
    exact AList.notMem_empty path
  rw [OwnObjects.loadPersistedFiles_eq, foldl_addPersistedSnapshotFiles,
    view_foldl _ (owned_bootSnapshots hhistory), ← mem_added_replay, ← mem_removed_replay]
  cases hparse : (parseGen1Path path).isSome with
  | true =>
    -- removals of writers' files leave tombstones, so the order of the snapshots is no matter
    refine TombstoneSet.mem_live_of_buries hunburied ?_ ?_ ?_
    · intro change hchange _
      obtain ⟨m, _, rfl⟩ := mem_map.mp hchange
      exact tombstoneGc_isSome.mpr (.inl hparse)
    · simp only [pairwise_map]
      refine ((hfiling.directory hhistory).nodup_bootSnapshots snapshotsToLoad).imp_of_mem ?_
      intro s t hs ht hne hadds hadds'
      exact hne (adder_unique hhistory (OwnObjects.mem_bootSnapshots hs)
        (OwnObjects.mem_bootSnapshots ht) hadds hadds')
    · intro hstart hadded
      obtain ⟨s, hs, hadds⟩ := mem_added_replay.mp hadded
      obtain ⟨t, ht, hadds', hunloaded⟩ := exists_of_mem_start hhistory hfiling hstart
      obtain rfl := adder_unique hhistory ht (OwnObjects.mem_bootSnapshots hs) hadds' hadds
      exact hunloaded hs
  | false =>
    have hnotadded : path ∉ TombstoneSet.added (changesOf tableOf
        ((objects.bootSnapshots snapshotsToLoad).map .wal)) := by
      intro hadded
      obtain ⟨s, hs, hadds⟩ := mem_added_replay.mp hadded
      simp [gen1_of_adds hhistory (OwnObjects.mem_bootSnapshots hs) hadds] at hparse
    refine (TombstoneSet.mem_live_of_notMem_added hnotadded).trans ?_
    rw [or_iff_left hnotadded]
    rfl

end Load

include hhistory hfiling hsealed hwindow in
/-- Startup from the checkpoints and the snapshots after them gives what folding every snapshot in
order gives. -/
theorem mem_loadPersistedFiles :
    (key, path) ∈ (objects.loadPersistedFiles snapshotsToLoad).files.paths ↔
      (key, path) ∈ (Inner.newFromPersistedSnapshots objects.snapshots).files.paths := by
  rw [hhistory.mem_newFromPersistedSnapshots, ← sources_iff hhistory hfiling hsealed hwindow]
  constructor
  · intro hpath
    obtain rfl : key = tableOf path := owned_loadPersistedFiles hhistory hfiling _ hpath
    exact ⟨rfl, (mem_live_loadPersistedFiles hhistory hfiling).mp hpath⟩
  · rintro ⟨rfl, hrest⟩
    exact (mem_live_loadPersistedFiles hhistory hfiling).mpr hrest

end Restart

end Filing

end RefluxDb.Write
