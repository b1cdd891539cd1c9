import RefluxDb.Write.InventoryCheckpoint
import RefluxDb.Write.Streams

/-! Folding the inventory above a checkpoint.

A checkpoint is sound if its view is complete and clean up to its marks and its tombstones cover
what was removed up to the marks and is added above them. Folding a sound checkpoint and what is
published above its marks leaves what all published manifests settle to, of every path that was
not live before. -/

namespace RefluxDb.Write

open List RefluxDb.Library

variable {inner : Inner} {key : TableKey} {path : String}

theorem mem_tableFiles {file : ParquetFile} :
    file ∈ inner.tableFiles key ↔ (key, file) ∈ inner.files := by
  simp [Inner.tableFiles]

theorem mem_snapshotAll_paths :
    (key, path) ∈ inner.snapshotAll.paths ↔ (key, path) ∈ inner.files.paths := by
  rw [mem_paths_tables]
  constructor
  · rintro ⟨table, htable, rfl, hpath⟩
    obtain ⟨key, _, rfl⟩ := mem_map.mp htable
    obtain ⟨file, hfile, rfl⟩ := mem_map.mp hpath
    exact mem_map.mpr ⟨(key, file), mem_tableFiles.mp hfile, rfl⟩
  · intro hmem
    obtain ⟨⟨key', file⟩, hentry, heq⟩ := mem_map.mp hmem
    obtain ⟨rfl, rfl⟩ := Prod.mk.inj heq
    have hkey : key' ∈ (inner.files.map Prod.fst).dedup :=
      mem_dedup.mpr (mem_map_of_mem hentry)
    exact ⟨_, mem_map_of_mem hkey, rfl, mem_map_of_mem (mem_tableFiles.mpr hentry)⟩

/-- The tombstones after seeding: the old ones, the seeded gen1 paths under a node, and the seeded
compactors' paths. -/
theorem mem_seedTombstones {gen1 : List (String × Nat)} {compaction : List (String × String)} :
    path ∈ (inner.seedTombstones gen1 compaction).removedTombstones ↔
      path ∈ inner.removedTombstones ∨
        (path ∈ gen1.map Prod.fst ∧ Text.firstPiece '/' path.toList ≠ []) ∨
          path ∈ compaction.map Prod.fst := by
  have hcompaction : ∀ (entries : List (String × String)) (tombstones : Tombstones),
      path ∈ entries.foldl (fun tombstones entry =>
        tombstones.insert entry.1 (.compaction entry.2)) tombstones ↔
        path ∈ tombstones ∨ path ∈ entries.map Prod.fst := by
    intro entries
    induction entries with
    | nil => simp
    | cons entry rest ih =>
      intro tombstones
      rw [foldl_cons, ih, AList.mem_insert, map_cons]
      grind
  have hgen1 : ∀ (entries : List (String × Nat)) (tombstones : Tombstones),
      path ∈ entries.foldl (fun tombstones entry =>
        let nodeId := Text.firstPiece '/' entry.1.toList
        if nodeId.isEmpty then tombstones
        else tombstones.insert entry.1 (.walSeq (.ofList nodeId) entry.2)) tombstones ↔
        path ∈ tombstones ∨
          path ∈ entries.map Prod.fst ∧ Text.firstPiece '/' path.toList ≠ [] := by
    intro entries
    induction entries with
    | nil => simp
    | cons entry rest ih =>
      intro tombstones
      rw [foldl_cons, ih, map_cons, mem_cons]
      dsimp only
      split
      case isTrue hempty =>
        rw [List.isEmpty_iff] at hempty
        constructor
        · grind
        · rintro (hold | ⟨rfl | hrest, hne⟩)
          · exact .inl hold
          · exact absurd hempty hne
          · exact .inr ⟨hrest, hne⟩
      case isFalse hne =>
        rw [List.isEmpty_iff] at hne
        rw [AList.mem_insert]
        constructor
        · rintro ((rfl | hold) | hrest)
          · exact .inr ⟨.inl rfl, hne⟩
          · exact .inl hold
          · exact .inr ⟨.inr hrest.1, hrest.2⟩
        · rintro (hold | ⟨rfl | hrest, hpiece⟩)
          · exact .inl (.inr hold)
          · exact .inl (.inl rfl)
          · exact .inr ⟨hrest, hpiece⟩
  simp only [Inner.seedTombstones]
  rw [hcompaction, hgen1, or_assoc]

/-- What a writer's manifest removes is removed by a published compaction or was added by a
published writer's manifest with a smaller number. -/
def Store.Grounds (store : Store) (snapshot : PersistedSnapshot) : Prop :=
  ∀ entry ∈ (Manifest.wal snapshot).removes,
    (∃ c ∈ store.compactions, entry ∈ (Manifest.compaction c.1 c.2).removes) ∨
      ∃ s ∈ store.walSnapshots, s.snapshotSequenceNumber < snapshot.snapshotSequenceNumber ∧
        entry ∈ (Manifest.wal s).adds
deriving Decidable

/-- Every published manifest is of the streams, and the removals of the writers' are grounded. -/
structure Streams.Publishes (streams : Streams) (store : Store) : Prop where
  wal_mem : ∀ s ∈ store.walSnapshots, s ∈ streams.wal
  compactions_mem : ∀ c ∈ store.compactions, c ∈ streams.compactions
  wal_grounded : ∀ s ∈ store.walSnapshots, store.Grounds s

def Streams.addedBy (streams : Streams) (store : Store) : Set String :=
  TombstoneSet.added (changesOf streams.tableOf store.manifests)

def Streams.removedBy (streams : Streams) (store : Store) : Set String :=
  TombstoneSet.removed (changesOf streams.tableOf store.manifests)

/-- A manifest that lists the view of everything up to some marks, and maybe more. -/
structure Streams.Merged (streams : Streams) (store : Store) (marks : InventoryWatermarks)
    (merged : PersistedSnapshot) : Prop where
  place : ∀ entry ∈ merged.databases.paths, entry.1 = streams.tableOf entry.2
  removes : merged.removedFiles.paths = []
  published : ∀ path, (streams.tableOf path, path) ∈ merged.databases.paths →
    path ∈ streams.addedBy store
  complete : ∀ m ∈ streams.manifests, marks.Passed m → ∀ path,
    (streams.tableOf path, path) ∈ m.adds → path ∉ streams.removedBy store →
      (streams.tableOf path, path) ∈ merged.databases.paths
  clean : ∀ path, (streams.tableOf path, path) ∈ merged.databases.paths →
    ∀ r ∈ streams.manifests, marks.Passed r → (streams.tableOf path, path) ∈ r.removes →
      parseGen1Path path = none ∧ r.compactionId = none

/-- A writer's path that is removed up to the marks and added above them. -/
structure Streams.Straddles (streams : Streams) (marks : InventoryWatermarks) (path : String) :
    Prop where
  gen1 : (parseGen1Path path).isSome
  removed : ∃ r ∈ streams.manifests, marks.Passed r ∧ (streams.tableOf path, path) ∈ r.removes
  added : ∃ s ∈ streams.manifests, ¬marks.Passed s ∧ (streams.tableOf path, path) ∈ s.adds

/-- A checkpoint that stands for everything up to its marks: its view is merged up to them, and its
tombstones are of removed paths, among them those that straddle the marks. -/
structure Checkpoint.Sound (streams : Streams) (store : Store) (checkpoint : Checkpoint) :
    Prop extends streams.Merged store checkpoint.marks checkpoint.mergedSnapshot where
  tombstones_removed : ∀ path ∈ checkpoint.tombstones.map Prod.fst ++
    checkpoint.compactionTombstones.map Prod.fst, path ∈ streams.removedBy store
  tombstones_kept : ∀ path, streams.Straddles checkpoint.marks path →
    path ∈ checkpoint.tombstones.map Prod.fst

variable {streams : Streams} {store : Store} {checkpoint : Checkpoint}

variable {m : Manifest}

theorem Store.mem_manifests : m ∈ store.manifests ↔
    (∃ s ∈ store.walSnapshots, m = .wal s) ∨
      ∃ c ∈ store.compactions, m = .compaction c.1 c.2 := by
  simp only [Store.manifests, mem_append, mem_map, eq_comm]

theorem Store.wal_mem_manifests {s : PersistedSnapshot} :
    .wal s ∈ store.manifests ↔ s ∈ store.walSnapshots := by
  simp [Store.mem_manifests]

theorem Store.compaction_mem_manifests {c : String × PersistedSnapshot} :
    .compaction c.1 c.2 ∈ store.manifests ↔ c ∈ store.compactions := by
  simp only [Store.mem_manifests, reduceCtorEq, and_false, exists_false, false_or,
    Manifest.compaction.injEq, ← Prod.ext_iff, exists_eq_right']

theorem Streams.Publishes.manifests_mem (hpublishes : streams.Publishes store)
    (hm : m ∈ store.manifests) : m ∈ streams.manifests := by
  rcases Store.mem_manifests.mp hm with ⟨s, hs, rfl⟩ | ⟨c, hc, rfl⟩
  · exact hpublishes.wal_mem s hs
  · exact hpublishes.compactions_mem c hc

/-- A compactor's path that is removed is removed by a compaction. -/
theorem Streams.Publishes.removed_by_compaction (hpublishes : streams.Publishes store)
    (hnone : parseGen1Path path = none) (hremoved : path ∈ streams.removedBy store) :
    ∃ c ∈ store.compactions,
      (streams.tableOf path, path) ∈ (Manifest.compaction c.1 c.2).removes := by
  obtain ⟨m, hm, hremoves⟩ := mem_removed_changesOf.mp hremoved
  rcases Store.mem_manifests.mp hm with ⟨s, hs, rfl⟩ | ⟨c, hc, rfl⟩
  · rcases hpublishes.wal_grounded s hs _ hremoves with hcompaction | ⟨s', hs', _, hadds⟩
    · exact hcompaction
    · have hparse := streams.wal_paths s' (hpublishes.wal_mem s' hs') _ hadds
      simp [hnone] at hparse
  · exact ⟨c, hc, hremoves⟩

/-- A writer's path that is removed is removed by a compaction, or by a writer's manifest with a
larger number than all that add it. -/
theorem Streams.Publishes.removed_gen1 (hpublishes : streams.Publishes store)
    (hremoved : path ∈ streams.removedBy store) :
    (∃ c ∈ store.compactions,
      (streams.tableOf path, path) ∈ (Manifest.compaction c.1 c.2).removes) ∨
    ∃ w ∈ store.walSnapshots, (streams.tableOf path, path) ∈ (Manifest.wal w).removes ∧
      ∀ s ∈ store.walSnapshots, (streams.tableOf path, path) ∈ (Manifest.wal s).adds →
        s.snapshotSequenceNumber < w.snapshotSequenceNumber := by
  obtain ⟨m, hm, hremoves⟩ := mem_removed_changesOf.mp hremoved
  rcases Store.mem_manifests.mp hm with ⟨w, hw, rfl⟩ | ⟨c, hc, rfl⟩
  · rcases hpublishes.wal_grounded w hw _ hremoves with hcompaction | ⟨s', hs', hlt, hadds⟩
    · exact .inl hcompaction
    · refine .inr ⟨w, hw, hremoves, fun s hs hsadds => ?_⟩
      rwa [streams.wal_added_once s (hpublishes.wal_mem s hs) s' (hpublishes.wal_mem s' hs') _
        hsadds hadds]
  · exact .inl ⟨c, hc, hremoves⟩

section Replay

variable {tableOf : String → TableKey} {set : TombstoneSet String}

variable {snapshots : List PersistedSnapshot}

theorem mem_added_replay :
    path ∈ TombstoneSet.added (changesOf tableOf (snapshots.map .wal)) ↔
      ∃ s ∈ snapshots, (tableOf path, path) ∈ (Manifest.wal s).adds := by
  rw [mem_added_changesOf]
  simp

theorem mem_removed_replay :
    path ∈ TombstoneSet.removed (changesOf tableOf (snapshots.map .wal)) ↔
      ∃ s ∈ snapshots, (tableOf path, path) ∈ (Manifest.wal s).removes := by
  rw [mem_removed_changesOf]
  simp

/-- A path that one of the replayed manifests removes and no later one adds is not live. -/
theorem notMem_live_of_replayed {earlier later : List PersistedSnapshot} {s : PersistedSnapshot}
    (hremoves : (tableOf path, path) ∈ (Manifest.wal s).removes)
    (hlater : ∀ s' ∈ later, (tableOf path, path) ∉ (Manifest.wal s').adds) :
    path ∉ (set.applyAll (changesOf tableOf ((earlier ++ s :: later).map .wal))).live := by
  have hsplit : changesOf tableOf ((earlier ++ s :: later).map .wal) =
      changesOf tableOf (earlier.map .wal) ++ (Manifest.wal s).change tableOf ::
        changesOf tableOf (later.map .wal) := by
    simp [changesOf]
  have hadded : path ∉ TombstoneSet.added (changesOf tableOf (later.map .wal)) := by
    intro hadded
    obtain ⟨s', hs', hadds⟩ := mem_added_replay.mp hadded
    exact hlater s' hs' hadds
  rw [hsplit, TombstoneSet.applyAll_append, TombstoneSet.applyAll_cons,
    TombstoneSet.mem_live_of_notMem_added hadded]
  exact fun h => h.1.2 hremoves

end Replay

/-- What a loader finds that starts from a checkpoint, without errors of the object store. -/
def Checkpoint.load (checkpoint : Checkpoint) (walListing : List PersistedSnapshot)
    (compactionListing : List (String × PersistedSnapshot)) : LoadedInventory :=
  loadFullState (some checkpoint) walListing compactionListing [] []

/-- The published manifests above the marks, in the order they are replayed. -/
def Checkpoint.replayed (checkpoint : Checkpoint) (walListing : List PersistedSnapshot)
    (compactionListing : List (String × PersistedSnapshot)) : List PersistedSnapshot :=
  loadAllWalSnapshots walListing checkpoint.walHighWater [] ++
    (loadAllCompactions compactionListing checkpoint.compactionsHighWater []).map Prod.snd

section Load

variable {walListing : List PersistedSnapshot}
variable {compactionListing : List (String × PersistedSnapshot)}

theorem Checkpoint.flatten_load : (checkpoint.load walListing compactionListing).flatten =
    checkpoint.mergedSnapshot :: checkpoint.replayed walListing compactionListing := rfl

variable {s : PersistedSnapshot}

section

variable (hwal : walListing.Perm store.walSnapshots)
include hwal

/-- What is replayed: the writers' manifests and the compactions the marks have not passed. -/
theorem Checkpoint.mem_replayed (hcompactions : compactionListing.Perm store.compactions) :
    s ∈ checkpoint.replayed walListing compactionListing ↔
      (s ∈ store.walSnapshots ∧ ¬checkpoint.marks.Passed (.wal s)) ∨
        ∃ id, (id, s) ∈ store.compactions ∧ ¬checkpoint.marks.Passed (.compaction id s) := by
  rw [replayed, mem_append, mem_loadAllWalSnapshots, hwal.mem_iff]
  simp only [not_mem_nil, not_false_eq_true, and_true, mem_map, mem_loadAllCompactions,
    hcompactions.mem_iff]
  refine or_congr Iff.rfl ?_
  constructor
  · rintro ⟨c, ⟨hc, hunpassed⟩, rfl⟩
    exact ⟨c.1, hc, hunpassed⟩
  · rintro ⟨id, hc, hunpassed⟩
    exact ⟨(id, s), ⟨hc, hunpassed⟩, rfl⟩

/-- A replayed manifest adds and removes what a published one does that the marks have not
passed. -/
theorem Checkpoint.manifest_of_replayed (hcompactions : compactionListing.Perm store.compactions)
    (hs : s ∈ checkpoint.replayed walListing compactionListing) :
    ∃ m ∈ store.manifests, ¬checkpoint.marks.Passed m ∧ m.snapshot = s := by
  rcases (mem_replayed hwal hcompactions).mp hs with ⟨hmem, hunpassed⟩ | ⟨id, hmem, hunpassed⟩
  · exact ⟨.wal s, Store.wal_mem_manifests.mpr hmem, hunpassed, rfl⟩
  · exact ⟨.compaction id s, Store.compaction_mem_manifests.mpr hmem, hunpassed, rfl⟩

theorem Checkpoint.replayed_of_manifest
    (hcompactions : compactionListing.Perm store.compactions) {m : Manifest}
    (hm : m ∈ store.manifests) (hunpassed : ¬checkpoint.marks.Passed m) :
    m.snapshot ∈ checkpoint.replayed walListing compactionListing := by
  rw [mem_replayed hwal hcompactions]
  rcases Store.mem_manifests.mp hm with ⟨s, hs, rfl⟩ | ⟨c, hc, rfl⟩
  · exact .inl ⟨hs, hunpassed⟩
  · exact .inr ⟨c.1, hc, hunpassed⟩

end

variable {set : TombstoneSet String}

/-- A replayed compaction removes its inputs for good: only smaller ids could add them. -/
theorem Streams.Publishes.notMem_live_of_compaction (hpublishes : streams.Publishes store)
    (hcompactions : compactionListing.Perm store.compactions) {c : String × PersistedSnapshot}
    (hc : c ∈ store.compactions)
    (hunpassed : ¬checkpoint.marks.Passed (.compaction c.1 c.2))
    (hremoves : (streams.tableOf path, path) ∈ (Manifest.compaction c.1 c.2).removes) :
    path ∉ (set.applyAll (changesOf streams.tableOf
      ((checkpoint.load walListing compactionListing).flatten.map .wal))).live := by
  have hahead := ahead_loadAllCompactions hcompactions checkpoint.compactionsHighWater []
  have hmem : c ∈ loadAllCompactions compactionListing checkpoint.compactionsHighWater [] :=
    mem_loadAllCompactions.mpr ⟨hcompactions.mem_iff.mpr hc, hunpassed, not_mem_nil⟩
  have hpublished : ∀ c' ∈ loadAllCompactions compactionListing checkpoint.compactionsHighWater [],
      c' ∈ streams.compactions := fun c' hc' =>
    hpublishes.compactions_mem c' (hcompactions.mem_iff.mp (mem_loadAllCompactions.mp hc').1)
  obtain ⟨earlier, later, hsplit⟩ := append_of_mem hmem
  have hflatten : (checkpoint.load walListing compactionListing).flatten =
      (checkpoint.mergedSnapshot :: loadAllWalSnapshots walListing checkpoint.walHighWater [] ++
        earlier.map Prod.snd) ++ c.2 :: later.map Prod.snd := by
    simp [Checkpoint.flatten_load, Checkpoint.replayed, hsplit]
  rw [hsplit] at hahead hpublished
  rw [hflatten]
  refine notMem_live_of_replayed hremoves fun s hs hadds => ?_
  obtain ⟨c', hc', rfl⟩ := mem_map.mp hs
  have hascending := (pairwise_cons.mp (pairwise_append.mp hahead.ascending).2.1).1 c' hc'
  refine hascending (streams.compaction_inputs c' (hpublished c' (by simp [hc'])) c
    (hpublished c (by simp)) _ hadds hremoves)

/-- A replayed writer's manifest removes a writer's file for good if only smaller numbers add
it. -/
theorem Streams.Publishes.notMem_live_of_wal (hpublishes : streams.Publishes store)
    (hwal : walListing.Perm store.walSnapshots)
    (hcompactions : compactionListing.Perm store.compactions) {w : PersistedSnapshot}
    (hw : w ∈ store.walSnapshots) (hunpassed : ¬checkpoint.marks.Passed (.wal w))
    (hremoves : (streams.tableOf path, path) ∈ (Manifest.wal w).removes)
    (hgen1 : (parseGen1Path path).isSome)
    (hadders : ∀ s ∈ store.walSnapshots, (streams.tableOf path, path) ∈ (Manifest.wal s).adds →
      s.snapshotSequenceNumber < w.snapshotSequenceNumber) :
    path ∉ (set.applyAll (changesOf streams.tableOf
      ((checkpoint.load walListing compactionListing).flatten.map .wal))).live := by
  have hsorted := pairwise_loadAllWalSnapshots walListing checkpoint.walHighWater []
  have hmem : w ∈ loadAllWalSnapshots walListing checkpoint.walHighWater [] :=
    mem_loadAllWalSnapshots.mpr ⟨hwal.mem_iff.mpr hw, hunpassed, not_mem_nil⟩
  have hpublished : ∀ s ∈ loadAllWalSnapshots walListing checkpoint.walHighWater [],
      s ∈ store.walSnapshots := fun s hs =>
    hwal.mem_iff.mp (mem_loadAllWalSnapshots.mp hs).1
  obtain ⟨earlier, later, hsplit⟩ := append_of_mem hmem
  have hflatten : (checkpoint.load walListing compactionListing).flatten =
      (checkpoint.mergedSnapshot :: earlier) ++ w :: (later ++
        (loadAllCompactions compactionListing checkpoint.compactionsHighWater []).map
          Prod.snd) := by
    simp [Checkpoint.flatten_load, Checkpoint.replayed, hsplit]
  rw [hsplit] at hsorted hpublished
  rw [hflatten]
  refine notMem_live_of_replayed hremoves fun s hs hadds => ?_
  rcases mem_append.mp hs with hlater | hcompaction
  · have hle := (pairwise_cons.mp (pairwise_append.mp hsorted).2.1).1 s hlater
    exact absurd (hadders s (hpublished s (by simp [hlater])) hadds) (not_lt.mpr hle)
  · obtain ⟨c, hc, rfl⟩ := mem_map.mp hcompaction
    have hpaths := streams.compaction_paths c (hpublishes.compactions_mem c
      (hcompactions.mem_iff.mp (mem_loadAllCompactions.mp hc).1)) _ hadds
    simp [hpaths] at hgen1

variable (hsound : checkpoint.Sound streams store) (hpublishes : streams.Publishes store)
variable (hwal : walListing.Perm store.walSnapshots)
variable (hcompactions : compactionListing.Perm store.compactions)

include hsound hpublishes hwal hcompactions

theorem Checkpoint.Sound.owned_flatten :
    ∀ s ∈ (checkpoint.load walListing compactionListing).flatten,
      (Manifest.wal s).Owned streams.tableOf := by
  intro s hs
  rw [flatten_load, mem_cons] at hs
  rcases hs with rfl | hreplayed
  · rintro ⟨key, path⟩ hentry
    rcases mem_append.mp hentry with hadds | hremoves
    · exact hsound.place _ hadds
    · have hnone := hsound.removes
      change (key, path) ∈ checkpoint.mergedSnapshot.removedFiles.paths at hremoves
      rw [hnone] at hremoves
      exact absurd hremoves not_mem_nil
  · obtain ⟨m, hm, _, rfl⟩ := manifest_of_replayed hwal hcompactions hreplayed
    have howned : m.Owned streams.tableOf := streams.owned (hpublishes.manifests_mem hm)
    exact howned

/-- A path that is removed for good up to the marks is not brought back, and stays as long as it
was there before and no replayed manifest removes it. -/
theorem Checkpoint.Sound.mem_live_of_passed
    (hburied : ∀ path ∈ checkpoint.tombstones.map Prod.fst, (parseGen1Path path).isSome →
      path ∈ set.buried) {r : Manifest} (hr : r ∈ store.manifests)
    (hpassed : checkpoint.marks.Passed r) (hremoves : (streams.tableOf path, path) ∈ r.removes)
    (hburies : (parseGen1Path path).isSome ∨ r.compactionId.isSome) :
    path ∈ (set.applyAll (changesOf streams.tableOf
      ((checkpoint.load walListing compactionListing).flatten.map .wal))).live ↔
      path ∈ set.live ∧ path ∉ TombstoneSet.removed (changesOf streams.tableOf
        ((checkpoint.load walListing compactionListing).flatten.map .wal)) := by
  have hrmem := hpublishes.manifests_mem hr
  by_cases htombstone : path ∈ set.buried
  · exact TombstoneSet.mem_live_of_buried htombstone _
  · refine TombstoneSet.mem_live_of_notMem_added ?_
    rw [mem_added_replay]
    rintro ⟨s, hs, hadds⟩
    rcases mem_cons.mp hs with rfl | hreplayed
    · obtain ⟨hnone, hcompaction⟩ := hsound.clean path hadds r hrmem hpassed hremoves
      simp [hnone, hcompaction] at hburies
    · obtain ⟨m, hm, hunpassed, rfl⟩ := manifest_of_replayed hwal hcompactions hreplayed
      have hmem := hpublishes.manifests_mem hm
      cases hparse : parseGen1Path path with
      | some parsed =>
        refine htombstone (hburied path ?_ (by simp [hparse]))
        exact hsound.tombstones_kept path ⟨by simp [hparse], ⟨r, hrmem, hpassed, hremoves⟩,
          ⟨m, hmem, hunpassed, hadds⟩⟩
      | none =>
        cases r with
        | wal w => simp [hparse, Manifest.compactionId] at hburies
        | compaction id s =>
          obtain ⟨id', s', rfl, _, hle⟩ :=
            Streams.adder_of_removal hrmem hremoves hparse hmem hadds
          obtain ⟨mark, hmark, hidle⟩ := hpassed
          exact hunpassed ⟨mark, hmark, hle.trans hidle⟩

/-- A removed path that was not live before is not live after the fold. -/
theorem Checkpoint.Sound.notMem_live_of_removed (set : TombstoneSet String)
    (hset : path ∉ set.live)
    (hburied : ∀ path ∈ checkpoint.tombstones.map Prod.fst, (parseGen1Path path).isSome →
      path ∈ set.buried) (hremoved : path ∈ streams.removedBy store) :
    path ∉ (set.applyAll (changesOf streams.tableOf
      ((checkpoint.load walListing compactionListing).flatten.map .wal))).live := by
  have hcompaction : ∀ c ∈ store.compactions,
      (streams.tableOf path, path) ∈ (Manifest.compaction c.1 c.2).removes →
      path ∉ (set.applyAll (changesOf streams.tableOf
        ((checkpoint.load walListing compactionListing).flatten.map .wal))).live := by
    intro c hc hremoves
    by_cases hpassed : checkpoint.marks.Passed (.compaction c.1 c.2)
    · rw [hsound.mem_live_of_passed hpublishes hwal hcompactions hburied
        (Store.compaction_mem_manifests.mpr hc) hpassed hremoves (.inr rfl)]
      exact fun h => hset h.1
    · exact hpublishes.notMem_live_of_compaction hcompactions hc hpassed hremoves
  cases hparse : parseGen1Path path with
  | none =>
    obtain ⟨c, hc, hremoves⟩ := hpublishes.removed_by_compaction hparse hremoved
    exact hcompaction c hc hremoves
  | some parsed =>
    have hgen1 : (parseGen1Path path).isSome := by simp [hparse]
    rcases hpublishes.removed_gen1 hremoved with ⟨c, hc, hremoves⟩ | ⟨w, hw, hremoves, hadders⟩
    · exact hcompaction c hc hremoves
    · by_cases hpassed : checkpoint.marks.Passed (.wal w)
      · rw [hsound.mem_live_of_passed hpublishes hwal hcompactions hburied
          (Store.wal_mem_manifests.mpr hw) hpassed hremoves (.inl hgen1)]
        exact fun h => hset h.1
      · exact hpublishes.notMem_live_of_wal hwal hcompactions hw hpassed hremoves hgen1 hadders

/-- A path that is added and not removed is live after the fold, and one that is neither added nor
was live before is not. -/
theorem Checkpoint.Sound.mem_live_of_notMem_removed
    (hburied : ∀ path ∈ set.buried, path ∈ streams.removedBy store)
    (hremoved : path ∉ streams.removedBy store) :
    path ∈ (set.applyAll (changesOf streams.tableOf
      ((checkpoint.load walListing compactionListing).flatten.map .wal))).live ↔
      path ∈ set.live ∨ path ∈ streams.addedBy store := by
  have hreplay : path ∉ TombstoneSet.removed (changesOf streams.tableOf
      ((checkpoint.load walListing compactionListing).flatten.map .wal)) := by
    rw [mem_removed_replay]
    rintro ⟨s, hs, hremoves⟩
    rcases mem_cons.mp hs with rfl | hreplayed
    · have hnone := hsound.removes
      change (streams.tableOf path, path) ∈ checkpoint.mergedSnapshot.removedFiles.paths at hremoves
      rw [hnone] at hremoves
      exact absurd hremoves not_mem_nil
    · obtain ⟨m, hm, _, rfl⟩ := manifest_of_replayed hwal hcompactions hreplayed
      exact hremoved (mem_removed_changesOf.mpr ⟨m, hm, hremoves⟩)
  rw [TombstoneSet.mem_live_of_notMem_removed (fun h => hremoved (hburied path h)) hreplay]
  refine or_congr_right ?_
  rw [mem_added_replay]
  constructor
  · rintro ⟨s, hs, hadds⟩
    rcases mem_cons.mp hs with rfl | hreplayed
    · exact hsound.published path hadds
    · obtain ⟨m, hm, _, rfl⟩ := manifest_of_replayed hwal hcompactions hreplayed
      exact mem_added_changesOf.mpr ⟨m, hm, hadds⟩
  · intro hadded
    obtain ⟨m, hm, hadds⟩ := mem_added_changesOf.mp hadded
    by_cases hpassed : checkpoint.marks.Passed m
    · exact ⟨_, mem_cons_self, hsound.complete m (hpublishes.manifests_mem hm) hpassed path
        hadds hremoved⟩
    · exact ⟨_, mem_cons_of_mem _ (replayed_of_manifest hwal hcompactions hm hpassed), hadds⟩

theorem Checkpoint.Sound.view_load (inner : Inner) :
    (inner.foldInventory (checkpoint.load walListing compactionListing)).view streams.tableOf =
      ((inner.seedTombstones checkpoint.tombstones checkpoint.compactionTombstones).view
        streams.tableOf).applyAll (changesOf streams.tableOf
          ((checkpoint.load walListing compactionListing).flatten.map .wal)) := by
  have hfold : inner.foldInventory (checkpoint.load walListing compactionListing) =
      ((checkpoint.load walListing compactionListing).flatten.map .wal).foldl Inner.fold
        (inner.seedTombstones checkpoint.tombstones checkpoint.compactionTombstones) := by
    rw [foldl_map]
    rfl
  rw [hfold]
  exact view_foldl _ (forall_mem_map.mpr (hsound.owned_flatten hpublishes hwal hcompactions)) _

omit hpublishes hwal hcompactions in
/-- Seeding a checkpoint's tombstones buries only removed paths, if only such were buried. -/
theorem Checkpoint.Sound.removed_of_seeded
    (hinner : ∀ path ∈ inner.removedTombstones, path ∈ streams.removedBy store) :
    ∀ path ∈ ((inner.seedTombstones checkpoint.tombstones
      checkpoint.compactionTombstones).view streams.tableOf).buried,
      path ∈ streams.removedBy store := by
  intro path hpath
  rcases mem_seedTombstones.mp hpath with hold | ⟨hgen1, _⟩ | hcompaction
  · exact hinner path hold
  · exact hsound.tombstones_removed path (mem_append_left _ hgen1)
  · exact hsound.tombstones_removed path (mem_append_right _ hcompaction)

omit hsound hpublishes hwal hcompactions in
theorem Checkpoint.mem_seeded (inner : Inner) : ∀ path ∈ checkpoint.tombstones.map Prod.fst,
    (parseGen1Path path).isSome → path ∈ ((inner.seedTombstones checkpoint.tombstones
      checkpoint.compactionTombstones).view streams.tableOf).buried :=
  fun _ hpath hgen1 => mem_seedTombstones.mpr
    (.inr (.inl ⟨hpath, fun hempty => by simp [parseGen1Path, hempty] at hgen1⟩))

/-- A path that was not live before is live after folding the inventory from a sound checkpoint
exactly when it is added and not removed. -/
theorem Checkpoint.Sound.mem_foldInventory (habsent : path ∉ (inner.view streams.tableOf).live)
    (hinner : ∀ path ∈ inner.removedTombstones, path ∈ streams.removedBy store) :
    path ∈ ((inner.foldInventory (checkpoint.load walListing compactionListing)).view
        streams.tableOf).live ↔
      path ∈ streams.addedBy store ∧ path ∉ streams.removedBy store := by
  rw [hsound.view_load hpublishes hwal hcompactions]
  by_cases hremoved : path ∈ streams.removedBy store
  · have hdead := hsound.notMem_live_of_removed hpublishes hwal hcompactions
      ((inner.seedTombstones checkpoint.tombstones checkpoint.compactionTombstones).view
        streams.tableOf) habsent (checkpoint.mem_seeded inner) hremoved
    exact ⟨fun hlive => absurd hlive hdead, fun h => absurd hremoved h.2⟩
  · rw [hsound.mem_live_of_notMem_removed hpublishes hwal hcompactions
      (hsound.removed_of_seeded hinner) hremoved]
    constructor
    · rintro (hlive | hadded)
      · exact absurd hlive habsent
      · exact ⟨hadded, hremoved⟩
    · exact fun h => .inr h.1

theorem Checkpoint.Sound.place_foldInventory (hplace : inner.Owned streams.tableOf) :
    (inner.foldInventory (checkpoint.load walListing compactionListing)).Owned
      streams.tableOf := by
  have howned := hsound.owned_flatten hpublishes hwal hcompactions
  unfold Inner.foldInventory
  generalize hseeded :
      inner.seedTombstones (checkpoint.load walListing compactionListing).tombstones
    (checkpoint.load walListing compactionListing).compactionTombstones = seeded
  have hstart : seeded.Owned streams.tableOf := by
    rw [← hseeded]
    exact hplace
  have hfold : (((checkpoint.load walListing compactionListing).flatten.map
      .wal).foldl Inner.fold seeded).Owned streams.tableOf := by
    refine foldl_keeps _ (fun inner m hm hinner => ?_) hstart
    obtain ⟨s, hs, rfl⟩ := mem_map.mp hm
    exact hinner.fold (howned s hs)
  rw [foldl_map] at hfold
  exact hfold

end Load

end RefluxDb.Write
