import Mathlib.Data.List.Dedup
import RefluxDb.Write.CursorCompleteness

/-! Checkpoints of the shared inventory, and starting from one.

The compactor writes its view as one manifest together with the tombstones that are still needed
and the high-water marks its poller had reached. A loader seeds the tombstones, folds the manifest
and then only what lies above the marks. The marks, the view, the tombstones and the objects that
are left are read one after the other, while the poller folds, compactions publish and update the
same view, and objects are deleted.

Every manifest is published after its files are uploaded, so what a listing of objects lacks is
what was deleted: `gone`. Deletions by the delete tasks, by writers and by the cold sweep of the
checkpoint writer itself are one action. -/

namespace RefluxDb.Write

open RefluxDb.Library

def Store.manifests (store : Store) : List Manifest :=
  store.walSnapshots.map .wal ++ store.compactions.map fun c => .compaction c.1 c.2

structure Checkpoint where
  walHighWater : String → Nat
  compactionsHighWater : Option String
  mergedSnapshot : PersistedSnapshot
  tombstones : List (String × Nat)
  compactionTombstones : List (String × String)

def Checkpoint.marks (checkpoint : Checkpoint) : InventoryWatermarks :=
  ⟨checkpoint.walHighWater, checkpoint.compactionsHighWater⟩

structure LoadedInventory where
  checkpoint : Option Checkpoint
  walSnapshots : List PersistedSnapshot
  compactions : List PersistedSnapshot
  walWatermarks : String → Nat
  compactionWatermark : Option String
  tombstones : List (String × Nat)
  compactionTombstones : List (String × String)

/-- Loads the latest checkpoint and what a listing has above its marks. -/
def loadFullState (checkpoint : Option Checkpoint) (walListing : List PersistedSnapshot)
    (compactionListing : List (String × PersistedSnapshot)) (unreadableWal : List (String × Nat))
    (unreadableCompactions : List String) : LoadedInventory :=
  let sincePerNode := (checkpoint.map (·.walHighWater)).getD fun _ => 0
  let sinceCompaction := checkpoint.bind (·.compactionsHighWater)
  let walSnapshots := loadAllWalSnapshots walListing sincePerNode unreadableWal
  let compactionsRaw := loadAllCompactions compactionListing sinceCompaction unreadableCompactions
  { checkpoint := checkpoint
    walSnapshots := walSnapshots
    compactions := compactionsRaw.map Prod.snd
    walWatermarks := walSnapshots.foldl walFeed.advance sincePerNode
    compactionWatermark := (compactionsRaw.getLast?.map Prod.fst).or sinceCompaction
    tombstones := (checkpoint.map (·.tombstones)).getD []
    compactionTombstones := (checkpoint.map (·.compactionTombstones)).getD [] }

def LoadedInventory.flatten (loaded : LoadedInventory) : List PersistedSnapshot :=
  (loaded.checkpoint.map (·.mergedSnapshot)).toList ++ loaded.walSnapshots ++ loaded.compactions

namespace Inner

/-- Seeds the tombstones of the loaded inventory and folds its manifests, none under an id. -/
def foldInventory (inner : Inner) (loaded : LoadedInventory) : Inner :=
  loaded.flatten.foldl addPersistedSnapshotFiles
    (inner.seedTombstones loaded.tombstones loaded.compactionTombstones)

def snapshotAll (inner : Inner) : DatabaseTables where
  tables := (inner.files.map Prod.fst).dedup.map fun key => (key, inner.tableFiles key)
  nodup_keys := by
    rw [List.map_map]
    change ((inner.files.map Prod.fst).dedup.map id).Nodup
    rw [List.map_id]
    exact List.nodup_dedup _

end Inner

def Cluster.setInner (cluster : Cluster) (inner : Inner) : Cluster :=
  { cluster with poller := { cluster.poller with inner := inner } }

/-- The object is confirmed missing: it was deleted, and its path is under a node's prefix, which
is what is listed. -/
def ConfirmedMissing (gone : List String) (path : String) : Prop :=
  path ∈ gone ∧ Text.firstPiece '/' path.toList ≠ []
deriving Decidable

/-- Where the checkpoint writer is, with all it has read so far. -/
inductive CheckpointPhase where
  | idle
  | captured (marks : InventoryWatermarks)
  | refsRead (marks : InventoryWatermarks) (refs : List (TableKey × List ParquetFile))
  | evicting (marks : InventoryWatermarks) (missing : List (TableKey × List ParquetFile))
  | evicted (marks : InventoryWatermarks) (paths : List String)
      (missing : List (TableKey × List ParquetFile))
  | merged (marks : InventoryWatermarks) (snapshot : PersistedSnapshot)
  | collected (marks : InventoryWatermarks) (snapshot : PersistedSnapshot)
  | tombstonesRead (checkpoint : Checkpoint)
  | walRead (checkpoint : Checkpoint) (candidates : List (String × Nat))
  | ready (checkpoint : Checkpoint)

/-- The marks of a checkpoint whose tombstones have not been read yet. -/
def CheckpointPhase.marksHeld : CheckpointPhase → Option InventoryWatermarks
  | .captured marks | .refsRead marks _ | .evicting marks _ | .evicted marks _ _
  | .merged marks _ | .collected marks _ => some marks
  | _ => none

inductive CheckpointAction where
  | capture
  | readRefs
  | listObjects
  | evict
  | tombstoneEvicted
  | snapshotAll
  | gcTombstones
  | readTombstones
  | loadWal (listing : List PersistedSnapshot)
  | findSurvivors
  | write

/-- A compactor: the manifests and its poller, what its compaction tasks have applied to the view
themselves, the deleted objects, the marks the poller has handed out, and the checkpoint writer.
`marksDue` is set from the end of a tick until its marks are handed out. -/
structure CompactorNode where
  nodeId : String := "compactor"
  cluster : Cluster := {}
  outputsAdded : List (String × PersistedSnapshot) := []
  inputsRemoved : List (String × PersistedSnapshot) := []
  gone : List String := []
  watermarks : InventoryWatermarks := {}
  marksDue : Bool := false
  phase : CheckpointPhase := .idle
  checkpoints : List Checkpoint := []

inductive CompactorAction where
  | cluster (action : ClusterAction)
  | publishWatermarks
  | addOutputs (id : String) (snapshot : PersistedSnapshot)
  | removeInputs (id : String) (snapshot : PersistedSnapshot)
  | deleteObject (path : String)
  | checkpoint (action : CheckpointAction)

namespace CompactorNode

def inner (node : CompactorNode) : Inner := node.cluster.poller.inner

def setInner (node : CompactorNode) (inner : Inner) : CompactorNode :=
  { node with cluster := node.cluster.setInner inner }

/-- Adds the outputs of a compaction to the view, as its task does after publishing. -/
def addOutputs (inner : Inner) (snapshot : PersistedSnapshot) : Inner :=
  snapshot.databases.tables.foldl (fun inner table =>
    table.2.foldl (fun inner file => inner.addPersistedFile table.1 file) inner) inner

def removeInputs (inner : Inner) (snapshot : PersistedSnapshot) : Inner :=
  snapshot.removedFiles.tables.foldl (fun inner table =>
    inner.removePersistedFiles table.1 table.2) inner

def mergedSnapshot (nodeId : String) (inner : Inner) : PersistedSnapshot where
  nodeId := nodeId
  snapshotSequenceNumber := 0
  walFileSequenceNumber := 0
  databases := inner.snapshotAll
  removedFiles := .empty

/-- The files of the references whose objects are confirmed missing, by table. -/
def missingRefs (gone : List String) (refs : List (TableKey × List ParquetFile)) :
    List (TableKey × List ParquetFile) :=
  (refs.map fun table =>
    (table.1, table.2.filter fun file => ConfirmedMissing gone file.path)).filter
    fun table => !table.2.isEmpty

/-- What the writers' manifests above the marks add and the merged view lacks, with the WAL file
number of the manifest. -/
def survivorCandidates (merged : PersistedSnapshot) (liveWal : List PersistedSnapshot) :
    List (String × Nat) :=
  let mergedPaths := merged.databases.paths.map Prod.snd
  liveWal.flatMap fun snapshot =>
    ((snapshot.databases.paths.map Prod.snd).filter (· ∉ mergedPaths)).map
      fun path => (path, snapshot.walFileSequenceNumber)

/-- One step of the checkpoint writer, without errors of the object store. -/
def checkpointStep (node : CompactorNode) : CheckpointAction → Option CompactorNode
  | .capture => match node.phase with
      | .idle => some { node with phase := .captured node.watermarks }
      | _ => none
  | .readRefs => match node.phase with
      | .captured marks => some { node with phase := .refsRead marks node.inner.snapshotAll.tables }
      | _ => none
  | .listObjects => match node.phase with
      | .refsRead marks refs =>
        some { node with phase := .evicting marks (missingRefs node.gone refs) }
      | _ => none
  | .evict => match node.phase with
      | .evicting marks ((key, files) :: rest) =>
        some { node.setInner (node.inner.removePersistedFiles key files) with
          phase := .evicted marks (files.map (·.path)) rest }
      | _ => none
  | .tombstoneEvicted => match node.phase with
      | .evicted marks paths rest =>
        some { node.setInner (node.inner.tombstoneEvicted paths) with
          phase := .evicting marks rest }
      | _ => none
  | .snapshotAll => match node.phase with
      | .evicting marks [] =>
        some { node with phase := .merged marks (mergedSnapshot node.nodeId node.inner) }
      | _ => none
  | .gcTombstones => match node.phase with
      | .merged marks snapshot =>
        some { node.setInner (node.inner.gcTombstones marks.wal marks.compaction) with
          phase := .collected marks snapshot }
      | _ => none
  | .readTombstones => match node.phase with
      | .collected marks snapshot =>
        let (tombstones, compactionTombstones) := node.inner.tombstonesForCheckpoint
        let checkpoint : Checkpoint :=
          ⟨marks.wal, marks.compaction, snapshot, tombstones, compactionTombstones⟩
        some { node with phase := .tombstonesRead checkpoint }
      | _ => none
  | .loadWal listing => match node.phase with
      | .tombstonesRead checkpoint =>
        if listing.Perm node.cluster.store.walSnapshots then
          let liveWal := loadAllWalSnapshots listing checkpoint.walHighWater []
          some { node with
            phase := .walRead checkpoint (survivorCandidates checkpoint.mergedSnapshot liveWal) }
        else none
      | _ => none
  | .findSurvivors => match node.phase with
      | .walRead checkpoint candidates =>
        let survivors := candidates.filter fun entry => ConfirmedMissing node.gone entry.1
        let complete := { checkpoint with tombstones := checkpoint.tombstones ++ survivors }
        some { node with phase := .ready complete }
      | _ => none
  | .write => match node.phase with
      | .ready checkpoint =>
        some { node with phase := .idle, checkpoints := node.checkpoints ++ [checkpoint] }
      | _ => none

/-- The first step of a tick waits until the marks of the tick before have been handed out. -/
def startsTick : ClusterAction → Bool
  | .poll (.loadWal _ _) => true
  | _ => false

/-- The last step of a tick that has folded something. -/
def endsTick : ClusterAction → Bool
  | .poll .gc => true
  | _ => false

def step (node : CompactorNode) : CompactorAction → Option CompactorNode
  | .cluster action =>
    if startsTick action && node.marksDue then none
    else (node.cluster.step action).map fun cluster =>
      { node with cluster := cluster, marksDue := node.marksDue || endsTick action }
  | .publishWatermarks =>
    if node.marksDue then
      some { node with watermarks := node.cluster.poller.watermarks, marksDue := false }
    else none
  | .addOutputs id snapshot =>
    if (id, snapshot) ∈ node.cluster.store.compactions ∧ (id, snapshot) ∉ node.outputsAdded then
      some { node.setInner (addOutputs node.inner snapshot) with
        outputsAdded := (id, snapshot) :: node.outputsAdded }
    else none
  | .removeInputs id snapshot =>
    if (id, snapshot) ∈ node.outputsAdded ∧ (id, snapshot) ∉ node.inputsRemoved then
      some { node.setInner (removeInputs node.inner snapshot) with
        inputsRemoved := (id, snapshot) :: node.inputsRemoved }
    else none
  | .deleteObject path => some { node with gone := path :: node.gone }
  | .checkpoint action => node.checkpointStep action

def machine : Machine CompactorNode CompactorAction where
  initial node := node = {}
  step := step

end CompactorNode

end RefluxDb.Write
