import RefluxDb.Write.FoldSpec

/-! The fold of an inventory in every order.

Manifests of writers and compactors reach a node in no fixed order. The fold is meant to end with
all added paths minus all removed paths whatever that order is. It does exactly when no writer's
removal of a compactor's file stands alone: such a removal leaves no tombstone when it comes
before the file. -/

namespace RefluxDb.Write

open List RefluxDb.Library

/-- A manifest, as it is folded: a writer's snapshot, or a compaction under its id. -/
inductive Manifest where
  | wal (snapshot : PersistedSnapshot)
  | compaction (id : String) (snapshot : PersistedSnapshot)
deriving DecidableEq

namespace Manifest

def snapshot : Manifest → PersistedSnapshot
  | .wal snapshot | .compaction _ snapshot => snapshot

def compactionId : Manifest → Option String
  | .wal _ => none
  | .compaction id _ => some id

def adds (manifest : Manifest) : List (TableKey × String) := manifest.snapshot.databases.paths

/-- The table and path of the files a manifest removes. -/
def removes (manifest : Manifest) : List (TableKey × String) :=
  manifest.snapshot.removedFiles.paths

end Manifest

def Inner.fold (inner : Inner) : Manifest → Inner
  | .wal snapshot => inner.addPersistedSnapshotFiles snapshot
  | .compaction id snapshot => inner.addPersistedCompactionFiles snapshot id

variable {inner : Inner} {manifest : Manifest} {tableOf : String → TableKey}
variable {key : TableKey} {path : String}

theorem Inner.fold_eq :
    inner.fold manifest = inner.addPersistedSnapshot manifest.snapshot manifest.compactionId := by
  cases manifest <;> rfl

/-- Every path of the manifest is listed under the table it belongs to. -/
def Manifest.Owned (tableOf : String → TableKey) (manifest : Manifest) : Prop :=
  ∀ entry ∈ manifest.adds ++ manifest.removes, entry.1 = tableOf entry.2
deriving Decidable

/-- The live and the tombstoned paths of a view, where each path belongs to one table. -/
def Inner.view (tableOf : String → TableKey) (inner : Inner) : TombstoneSet String where
  live := {path | (tableOf path, path) ∈ inner.files.paths}
  buried := {path | path ∈ inner.removedTombstones}

/-- What a manifest changes. Its removals bury gen1 paths, and any path if it is a
compaction's. -/
def Manifest.change (tableOf : String → TableKey) (manifest : Manifest) : Change String where
  adds := {path | (tableOf path, path) ∈ manifest.adds}
  removes := {path | (tableOf path, path) ∈ manifest.removes}
  buries := {path | (tombstoneGc manifest.compactionId path).isSome}

theorem Manifest.Owned.of_mem_adds (howned : manifest.Owned tableOf)
    (hmem : (key, path) ∈ manifest.adds) : key = tableOf path :=
  howned (key, path) (mem_append_left _ hmem)

theorem Manifest.Owned.of_mem_removes (howned : manifest.Owned tableOf)
    (hmem : (key, path) ∈ manifest.removes) : key = tableOf path :=
  howned (key, path) (mem_append_right _ hmem)

theorem mem_fold_paths :
    (key, path) ∈ (inner.fold manifest).files.paths ↔
      ((key, path) ∈ inner.files.paths ∨
        (key, path) ∈ manifest.adds ∧ path ∉ inner.removedTombstones) ∧
      (key, path) ∉ manifest.removes := by
  rw [Inner.fold_eq]
  exact mem_addPersistedSnapshot_paths

/-- A manifest folded again leaves the files, record by record, and the counters as they are. What
is new are tombstones for removals that found their file the first time. -/
theorem fold_fold (inner : Inner) (manifest : Manifest) :
    let once := inner.fold manifest
    let twice := once.fold manifest
    twice.files = once.files ∧ twice.parquetFilesCount = once.parquetFilesCount ∧
      twice.parquetFilesRowCount = once.parquetFilesRowCount ∧
      ∀ path, path ∈ twice.removedTombstones ↔ path ∈ once.removedTombstones ∨
        (∃ key, (key, path) ∈ manifest.removes ∧ (key, path) ∉ manifest.adds) ∧
          (tombstoneGc manifest.compactionId path).isSome := by
  intro once twice
  have htwice : twice = once.addPersistedSnapshot manifest.snapshot manifest.compactionId :=
    Inner.fold_eq
  have hremoved : ∀ entry ∈ manifest.removes, entry ∉ once.files.paths := fun entry hentry hmem =>
    (mem_fold_paths.mp hmem).2 hentry
  have hpaths : ∀ entry, entry ∈ twice.files.paths → entry ∈ once.files.paths := by
    rintro ⟨key, path⟩
    have hburied : path ∈ inner.removedTombstones → path ∈ once.removedTombstones := by
      simp only [once, Inner.fold_eq, mem_addPersistedSnapshot_tombstones]
      exact .inl
    simp only [twice, once, mem_fold_paths] at *
    tauto
  obtain ⟨new, hfiles, hnew⟩ := @extends_foldl_addTable once manifest.snapshot
  have hfilter : twice.files = (once.files ++ new).filter fun entry =>
      decide ((entry.1, entry.2.path) ∉ manifest.removes) := by
    rw [htwice, ← hfiles]
    exact files_addPersistedSnapshot
  have hsame : twice.files = once.files := by
    rw [hfilter, filter_append, filter_eq_self.mpr, filter_eq_nil_iff.mpr, append_nil]
    · intro entry hentry hkept
      have hagain : entry ∈ twice.files :=
        hfilter ▸ mem_filter.mpr ⟨mem_append_right _ hentry, hkept⟩
      exact hnew entry hentry (hpaths _ (mem_map_of_mem hagain))
    · exact fun entry hentry => decide_eq_true fun hgone =>
        hremoved _ hgone (mem_map_of_mem hentry)
  obtain ⟨hcount, hrows⟩ := @accounts_updatePersistedFilesWithSnapshot manifest.compactionId once
    manifest.snapshot
  refine ⟨hsame, ?_, ?_, fun path => ?_⟩
  all_goals rw [htwice] at hsame ⊢
  · rw [show (updatePersistedFilesWithSnapshot ..).files = _ from hsame] at hcount
    simp only [Inner.addPersistedSnapshot]
    omega
  · rw [show (updatePersistedFilesWithSnapshot ..).files = _ from hsame] at hrows
    simp only [Inner.addPersistedSnapshot]
    omega
  · rw [mem_addPersistedSnapshot_tombstones]
    refine or_congr_right' fun hfree => and_congr_left fun _ => exists_congr fun key =>
      and_congr_right fun hremoves => not_congr ?_
    simp [PresentFor, hremoved _ hremoves, hfree, Manifest.adds]

/-- The fold refines the change of the abstract set. -/
theorem view_fold (howned : manifest.Owned tableOf) :
    (inner.fold manifest).view tableOf = (inner.view tableOf).apply (manifest.change tableOf) := by
  ext path
  · exact mem_fold_paths
  · change path ∈ (inner.fold manifest).removedTombstones ↔ _
    rw [Inner.fold_eq, mem_addPersistedSnapshot_tombstones]
    refine or_congr_right ?_
    constructor
    · rintro ⟨⟨key, hremoves, habsent⟩, hgc⟩
      obtain rfl := howned.of_mem_removes hremoves
      exact ⟨⟨hremoves, hgc⟩, habsent⟩
    · rintro ⟨⟨hremoves, hgc⟩, habsent⟩
      exact ⟨⟨tableOf path, hremoves, habsent⟩, hgc⟩

/-- Every live path is in the table it belongs to. -/
def Inner.Owned (tableOf : String → TableKey) (inner : Inner) : Prop :=
  ∀ entry ∈ inner.files.paths, entry.1 = tableOf entry.2

theorem Inner.Owned.fold (hinner : inner.Owned tableOf) (howned : manifest.Owned tableOf) :
    (inner.fold manifest).Owned tableOf := by
  rintro ⟨key, path⟩ hmem
  rcases (mem_fold_paths.mp hmem).1 with hold | ⟨hadds, _⟩
  · exact hinner _ hold
  · exact howned.of_mem_adds hadds

theorem Inner.Counted.fold (hcounted : inner.Counted) : (inner.fold manifest).Counted := by
  rw [Inner.fold_eq]
  exact hcounted.addPersistedSnapshot

theorem view_empty : (({} : Inner).view tableOf) = TombstoneSet.empty := by
  ext path
  · simp [Inner.view, Files.paths, TombstoneSet.empty]
  · simp [Inner.view, TombstoneSet.empty]

/-- Folding a list of manifests refines the changes of the abstract set, one by one. -/
theorem view_foldl (manifests : List Manifest) (howned : ∀ m ∈ manifests, m.Owned tableOf)
    (inner : Inner) :
    (manifests.foldl Inner.fold inner).view tableOf =
      (inner.view tableOf).applyAll (manifests.map (·.change tableOf)) := by
  induction manifests generalizing inner with
  | nil => rfl
  | cons manifest rest ih =>
    simp only [forall_mem_cons] at howned
    rw [foldl_cons, ih howned.2, view_fold howned.1]
    rfl

theorem tombstoneGc_isSome {source : Option String} :
    (tombstoneGc source path).isSome ↔ (parseGen1Path path).isSome ∨ source.isSome := by
  unfold tombstoneGc
  cases parseGen1Path path <;> simp

/-- Every compactor's file the manifest adds that a writer's manifest among `others` removes is
also removed by the manifest itself, or by a compaction among `others`. -/
def Manifest.RemovalsBuried (others : List Manifest) (manifest : Manifest) : Prop :=
  ∀ entry ∈ manifest.adds, parseGen1Path entry.2 = none →
    (∃ w ∈ others, w.compactionId = none ∧ entry ∈ w.removes) →
      entry ∈ manifest.removes ∨ ∃ c ∈ others, c.compactionId.isSome ∧ entry ∈ c.removes
deriving Decidable

/-- The changes a list of manifests stands for. -/
def changesOf (tableOf : String → TableKey) (manifests : List Manifest) : List (Change String) :=
  manifests.map (·.change tableOf)

variable {manifests : List Manifest}

theorem mem_added_changesOf : path ∈ TombstoneSet.added (changesOf tableOf manifests) ↔
    ∃ m ∈ manifests, (tableOf path, path) ∈ m.adds := by
  simp [TombstoneSet.added, changesOf, Manifest.change]

theorem mem_removed_changesOf : path ∈ TombstoneSet.removed (changesOf tableOf manifests) ↔
    ∃ m ∈ manifests, (tableOf path, path) ∈ m.removes := by
  simp [TombstoneSet.removed, changesOf, Manifest.change]

theorem mem_buriable_changesOf : path ∈ TombstoneSet.buriable (changesOf tableOf manifests) ↔
    ∃ m ∈ manifests, (tableOf path, path) ∈ m.removes ∧
      ((parseGen1Path path).isSome ∨ m.compactionId.isSome) := by
  simp [TombstoneSet.buriable, changesOf, Manifest.change, tombstoneGc_isSome]

/-- The condition on manifests, in terms of what their changes bury. -/
theorem Manifest.removalsBuried_iff (howned : manifest.Owned tableOf) :
    manifest.RemovalsBuried manifests ↔
      ∀ path ∈ (manifest.change tableOf).adds,
        path ∈ TombstoneSet.removed (changesOf tableOf manifests) →
          path ∈ (manifest.change tableOf).removes ∨
            path ∈ TombstoneSet.buriable (changesOf tableOf manifests) := by
  constructor
  · intro hcondition path hadds hremoved
    obtain ⟨w, hw, hremoves⟩ := mem_removed_changesOf.mp hremoved
    rw [mem_buriable_changesOf]
    cases hparse : parseGen1Path path with
    | some parsed => exact .inr ⟨w, hw, hremoves, .inl rfl⟩
    | none =>
      cases hsource : w.compactionId with
      | some id => exact .inr ⟨w, hw, hremoves, .inr (by simp [hsource])⟩
      | none =>
        rcases hcondition _ hadds hparse ⟨w, hw, hsource, hremoves⟩ with hself | hother
        · exact .inl hself
        · obtain ⟨c, hc, hcsource, hcremoves⟩ := hother
          exact .inr ⟨c, hc, hcremoves, .inr hcsource⟩
  · rintro hcondition ⟨key, path⟩ hadds hparse ⟨w, hw, _, hremoves⟩
    obtain rfl := howned.of_mem_adds hadds
    rcases hcondition path hadds (mem_removed_changesOf.mpr ⟨w, hw, hremoves⟩) with
      hself | hother
    · exact .inl hself
    · obtain ⟨c, hc, hcremoves, hgen1 | hcompaction⟩ := mem_buriable_changesOf.mp hother
      · simp [hparse] at hgen1
      · exact .inr ⟨c, hc, hcompaction, hcremoves⟩

/-- Manifests in which each path belongs to one table and is added at most once. -/
structure Inventory where
  manifests : List Manifest
  tableOf : String → TableKey
  owned : ∀ m ∈ manifests, m.Owned tableOf
  added_once : manifests.Pairwise fun m m' => ∀ entry ∈ m.adds, ∀ entry' ∈ m'.adds,
    entry.2 ≠ entry'.2

/-- The view an inventory is meant to end with: in each table all added paths minus all removed
ones, and counters to match. -/
def Inventory.Settled (inventory : Inventory) (inner : Inner) : Prop :=
  (∀ key path, (key, path) ∈ inner.files.paths ↔
    (∃ m ∈ inventory.manifests, (key, path) ∈ m.adds) ∧
      ¬∃ m ∈ inventory.manifests, (key, path) ∈ m.removes) ∧
    inner.Counted

/-- Every compactor's file that a writer's manifest removes is also removed by the manifest that
adds it, or by a compaction. -/
def Inventory.RemovedByCompactions (inventory : Inventory) : Prop :=
  ∀ m ∈ inventory.manifests, m.RemovalsBuried inventory.manifests

/-- A view whose paths are in the tables they belong to lists a table's path exactly when the
abstract set does. -/
theorem Inner.Owned.mem_paths_iff (hinner : inner.Owned tableOf)
    (howned : ∀ m ∈ manifests, m.Owned tableOf)
    (hlive : ∀ path, path ∈ (inner.view tableOf).live ↔
      path ∈ TombstoneSet.added (changesOf tableOf manifests) ∧
        path ∉ TombstoneSet.removed (changesOf tableOf manifests)) :
    (key, path) ∈ inner.files.paths ↔
      (∃ m ∈ manifests, (key, path) ∈ m.adds) ∧ ¬∃ m ∈ manifests, (key, path) ∈ m.removes := by
  by_cases hkey : key = tableOf path
  · subst hkey
    rw [← mem_added_changesOf, ← mem_removed_changesOf]
    exact hlive path
  · constructor
    · intro hmem
      exact absurd (hinner _ hmem) hkey
    · rintro ⟨⟨m, hm, hadds⟩, _⟩
      exact absurd ((howned m hm).of_mem_adds hadds) hkey

variable {inventory : Inventory} {order : List Manifest}

def Inventory.changes (inventory : Inventory) : List (Change String) :=
  changesOf inventory.tableOf inventory.manifests

theorem Inventory.addedOnce (inventory : Inventory) :
    TombstoneSet.AddedOnce inventory.changes := by
  unfold TombstoneSet.AddedOnce changes changesOf
  rw [pairwise_map]
  refine inventory.added_once.imp ?_
  intro m m' hdistinct
  rw [Set.disjoint_left]
  intro path hadds hadds'
  exact hdistinct _ hadds _ hadds' rfl

/-- A fold in some order is settled exactly when its abstract set is. -/
theorem Inventory.settled_iff (hperm : inventory.manifests.Perm order) :
    inventory.Settled (order.foldl Inner.fold {}) ↔
      (TombstoneSet.empty.applyAll (changesOf inventory.tableOf order)).live =
        TombstoneSet.added inventory.changes \ TombstoneSet.removed inventory.changes := by
  have howned : ∀ m ∈ order, m.Owned inventory.tableOf := fun m hm =>
    inventory.owned m (hperm.mem_iff.mpr hm)
  have hcounted : (order.foldl Inner.fold {}).Counted :=
    foldl_keeps Inner.Counted (fun _ _ _ h => h.fold) ⟨rfl, rfl⟩
  have hplace : (order.foldl Inner.fold {}).Owned inventory.tableOf :=
    foldl_keeps (Inner.Owned inventory.tableOf) (fun _ m hm h => h.fold (howned m hm))
      (by simp [Inner.Owned, Files.paths])
  rw [changesOf, ← view_empty, ← view_foldl order howned]
  constructor
  · rintro ⟨hlive, _⟩
    ext path
    rw [Set.mem_sdiff, changes, mem_added_changesOf, mem_removed_changesOf]
    exact hlive _ _
  · intro hview
    refine ⟨fun key path => hplace.mem_paths_iff inventory.owned fun path => ?_, hcounted⟩
    rw [hview, Set.mem_sdiff, changes]

theorem Inventory.removedByCompactions_iff :
    inventory.RemovedByCompactions ↔
      ∀ c ∈ inventory.changes, ∀ path ∈ c.adds, path ∈ TombstoneSet.removed inventory.changes →
        path ∈ c.removes ∨ path ∈ TombstoneSet.buriable inventory.changes := by
  unfold RemovedByCompactions changes
  rw [changesOf, forall_mem_map]
  exact forall₂_congr fun m hm => Manifest.removalsBuried_iff (inventory.owned m hm)

/-- The fold of an inventory ends settled in every order exactly when no compactor's file is
removed by writers' manifests alone. -/
theorem settled_in_every_order_iff (inventory : Inventory) :
    (∀ order, inventory.manifests.Perm order →
      inventory.Settled (order.foldl Inner.fold {})) ↔ inventory.RemovedByCompactions := by
  rw [Inventory.removedByCompactions_iff, ← TombstoneSet.live_perm_iff inventory.addedOnce]
  constructor
  · intro hall changes hperm
    obtain ⟨order, hmanifests, rfl⟩ : ∃ order, inventory.manifests.Perm order ∧
        order.map (·.change inventory.tableOf) = changes := by
      obtain ⟨order, hmap, horder⟩ := (congrFun₂ (eq_map_comp_perm
        fun m : Manifest => m.change inventory.tableOf) changes inventory.manifests).mpr hperm.symm
      exact ⟨order, horder.symm, hmap.symm⟩
    exact (Inventory.settled_iff hmanifests).mp (hall order hmanifests)
  · intro hall order hperm
    exact (Inventory.settled_iff hperm).mpr (hall _ (hperm.map _))

def compactedOutput : ParquetFile where
  id := 1
  path :=
    "compactor/dbs/db-1/t-1/gen2/2026-01-01/00-00/019b7000-0000-7000-8000-000000000001.parquet"
  sizeBytes := 1
  rowCount := 1
  chunkTime := 0
  minTime := 0
  maxTime := 0

def removesOutput : PersistedSnapshot where
  nodeId := "writer"
  snapshotSequenceNumber := 1
  walFileSequenceNumber := 1
  databases := .empty
  removedFiles := { tables := [(⟨1, 1⟩, [compactedOutput])] }

def addsOutput : String × PersistedSnapshot :=
  ("019b7000-0000-7000-8000-000000000001",
    { nodeId := "compactor", snapshotSequenceNumber := 0, walFileSequenceNumber := 0
      databases := { tables := [(⟨1, 1⟩, [compactedOutput])] }
      removedFiles := .empty })

/-- A compaction's output and the writer's removal of it, the removal first. -/
def writerRemovesOutput : Inventory where
  manifests := [.wal removesOutput, .compaction addsOutput.1 addsOutput.2]
  tableOf _ := ⟨1, 1⟩
  owned := by decide
  added_once := by decide

/-- Without a compaction that removes it too, the output comes back when the writer's removal of
it is folded first. -/
theorem removed_output_live_again :
    ∃ (inventory : Inventory) (order : List Manifest), inventory.manifests.Perm order ∧
      ¬inventory.Settled (order.foldl Inner.fold {}) := by
  refine ⟨writerRemovesOutput, writerRemovesOutput.manifests, List.Perm.refl _, ?_⟩
  rintro ⟨hlive, _⟩
  have hlisted : (⟨1, 1⟩, compactedOutput.path) ∈
      (writerRemovesOutput.manifests.foldl Inner.fold {}).files.paths := by decide
  exact ((hlive _ _).mp hlisted).2 (by decide)

end RefluxDb.Write
