import RefluxDb.Write.ViewUpdates

/-! The sweep that deletes superseded gen1 objects by their age.

A compactor that writes an inventory checkpoint takes the view it has just merged as the set of
live files, lists the objects of every node that has a live file, and deletes each gen1 object that
is not live and, by the listing, was put before the trailing window. Writers put objects and then
make the snapshot durable that lists them; publishing it to the shared inventory comes after that
and may fail. Compactions are made durable, then published if that succeeds, and then applied to the
view.

Objects may be put and snapshots made durable between the listing of an object and its deletion. A
failed delete is no step. -/

namespace RefluxDb.Write

open RefluxDb.Library

/-- The settings of a sweep that is on: a window that is not zero, and a limit for one run. -/
structure ColdGcConfig where
  keepGenerationsTrailingWindow : Nat
  coldGcMaxDeletesPerRun : Nat
  window_pos : 0 < keepGenerationsTrailingWindow := by decide

def coldGcShouldDelete (path : String) (lastModifiedMs cutoffMs : Int) (live : List String) :
    Bool :=
  (Text.afterFirst "/gen".toList path.toList).isNone && lastModifiedMs ≤ cutoffMs && path ∉ live

/-- What survives any node: the writers' snapshots and the compactor's manifests. -/
structure Durable where
  snapshots : List PersistedSnapshot := []
  compactions : List (String × PersistedSnapshot) := []

namespace Durable

variable (durable : Durable)

/-- A durable compaction removes the path. -/
def Removes (path : String) : Prop :=
  ∃ c ∈ durable.compactions, path ∈ c.2.removedFiles.paths.map Prod.snd
deriving Decidable

/-- A durable writer's snapshot lists the path and no durable compaction removes it. -/
def Live (path : String) : Prop :=
  (∃ s ∈ durable.snapshots, path ∈ s.databases.paths.map Prod.snd) ∧ ¬durable.Removes path
deriving Decidable

end Durable

/-- A sweep, with the objects that it has listed and when they had been put. -/
structure ColdSweep where
  live : List String
  cutoffMs : Int
  swept : Nat := 0
  listed : List (String × Int) := []

/-- The path is in the listing of a node that has a live file. -/
def ColdSweep.Lists (sweep : ColdSweep) (path : String) : Prop :=
  ∃ livePath ∈ sweep.live, Text.firstPiece '/' livePath.toList ≠ [] ∧
    (Text.firstPiece '/' livePath.toList ++ "/dbs/".toList).isPrefixOf path.toList
deriving Decidable

/-- The object store, the compactor and its sweep. `mergedFolded` is what the poller had folded
when the view was last merged; no step reads it. -/
structure ColdGc where
  nowMs : Int := 0
  /-- Parquet objects and when they were last put. -/
  objects : AList (fun _ : String => Int) := ∅
  durable : Durable := {}
  node : CompactorNode := {}
  mergedFolded : List Manifest := []
  sweep : Option ColdSweep := none

namespace ColdGc

inductive Action where
  | tick (ms : Nat)
  | putObject (path : String)
  | persistSnapshot (snapshot : PersistedSnapshot)
  | persistCompaction (id : String) (snapshot : PersistedSnapshot)
  | cluster (action : ClusterAction)
  | publishWatermarks
  | addOutputs (id : String) (snapshot : PersistedSnapshot)
  | removeInputs (id : String) (snapshot : PersistedSnapshot)
  | checkpoint (action : CheckpointAction)
  | beginSweep
  | listObject (path : String)
  | sweepObject (path : String)

/-- Only what is durable is published, a compaction before it is applied to the view. -/
def MayPublish (state : ColdGc) : ClusterAction → Prop
  | .publishWal s => s ∈ state.durable.snapshots
  | .publishCompaction id s =>
    (id, s) ∈ state.durable.compactions ∧ (id, s) ∉ state.node.outputsAdded
  | _ => True

instance (state : ColdGc) : ∀ action, Decidable (state.MayPublish action)
  | .publishWal _ => inferInstanceAs (Decidable (_ ∈ _))
  | .publishCompaction _ _ => inferInstanceAs (Decidable (_ ∧ _))
  | .mint _ _ | .poll _ => inferInstanceAs (Decidable True)

/-- The sweep deletes the path, by what it has listed. -/
def MaySweep (config : ColdGcConfig) (state : ColdGc) (path : String) : Prop :=
  ∃ sweep ∈ state.sweep, sweep.swept < config.coldGcMaxDeletesPerRun ∧
    ∃ item ∈ sweep.listed, item.1 = path ∧
      coldGcShouldDelete path item.2 sweep.cutoffMs sweep.live
deriving Decidable

def deleteObject (state : ColdGc) (path : String) : ColdGc :=
  { state with
    objects := state.objects.erase path
    node := { state.node with gone := path :: state.node.gone }
    sweep := state.sweep.map fun sweep =>
      { sweep with swept := sweep.swept + 1, listed := sweep.listed.filter (·.1 ≠ path) } }

/-- What the poller had folded when the view was last merged, after a step. -/
def foldedAt (node : CompactorNode) (mergedFolded : List Manifest) :
    CheckpointAction → List Manifest
  | .snapshotAll => node.cluster.poller.folded
  | _ => mergedFolded

/-- A checkpoint is not written before its sweep has run. -/
def sweepDue (sweep : Option ColdSweep) : CheckpointAction → Bool
  | .write => sweep.isNone
  | _ => false

/-- Writing the checkpoint ends its sweep. -/
def sweepAfter (sweep : Option ColdSweep) : CheckpointAction → Option ColdSweep
  | .write => none
  | _ => sweep

def checkpointStep (state : ColdGc) (action : CheckpointAction) : Option ColdGc :=
  (state.node.checkpointStep action).map fun node =>
    { state with
      node := node
      mergedFolded := foldedAt state.node state.mergedFolded action
      sweep := sweepAfter state.sweep action }

/-- A writer's snapshot adds gen1 files and a compaction does not. -/
def step (config : ColdGcConfig) (state : ColdGc) : Action → Option ColdGc
  | .tick ms => some { state with nowMs := state.nowMs + ms }
  | .putObject path =>
    some { state with
      objects := state.objects.insert path state.nowMs
      node := { state.node with gone := state.node.gone.filter (· ≠ path) } }
  | .persistSnapshot s =>
    if ∀ entry ∈ s.databases.paths, (parseGen1Path entry.2).isSome then
      some { state with durable :=
        { state.durable with snapshots := state.durable.snapshots ++ [s] } }
    else none
  | .persistCompaction id s =>
    if (id, s) ∈ state.node.cluster.minted ∧
        ∀ entry ∈ s.databases.paths, parseGen1Path entry.2 = none then
      some { state with durable :=
        { state.durable with compactions := state.durable.compactions ++ [(id, s)] } }
    else none
  | .cluster action =>
    if state.MayPublish action then
      (state.node.step (.cluster action)).map fun node => { state with node := node }
    else none
  | .publishWatermarks =>
    (state.node.step .publishWatermarks).map fun node => { state with node := node }
  | .addOutputs id s =>
    if (id, s) ∈ state.durable.compactions ∧ (id, s) ∉ state.node.outputsAdded then
      some { state with node :=
        { state.node.setInner (CompactorNode.addOutputs state.node.inner s) with
          outputsAdded := (id, s) :: state.node.outputsAdded } }
    else none
  | .removeInputs id s =>
    if (id, s) ∈ state.node.outputsAdded ∧ (id, s) ∉ state.node.inputsRemoved then
      some { state with node :=
        { state.node.setInner (CompactorNode.removeInputs state.node.inner s) with
          inputsRemoved := (id, s) :: state.node.inputsRemoved } }
    else none
  | .checkpoint action =>
    if sweepDue state.sweep action then none else state.checkpointStep action
  | .beginSweep => match state.node.phase, state.sweep with
      | .ready checkpoint, none =>
        let live := checkpoint.mergedSnapshot.databases.paths.map Prod.snd
        let cutoffMs := state.nowMs - config.keepGenerationsTrailingWindow
        some { state with sweep := some { live := live, cutoffMs := cutoffMs } }
      | _, _ => none
  | .listObject path =>
    match state.sweep, state.objects.lookup path with
    | some sweep, some lastModifiedMs =>
      if sweep.Lists path then
        let listed := (path, lastModifiedMs) :: sweep.listed
        some { state with sweep := some { sweep with listed := listed } }
      else none
    | _, _ => none
  | .sweepObject path => if state.MaySweep config path then some (state.deleteObject path) else none

def machine (config : ColdGcConfig) : Machine ColdGc Action where
  initial state := state = {}
  step := step config

/-- What the sweep is about to delete is not live. -/
def NeverSweepsLive (config : ColdGcConfig) (state : ColdGc) : Prop :=
  ∀ path, state.MaySweep config path → ¬state.durable.Live path

/-- A sweep begins when every durable snapshot was folded before the view was merged, except for
files that a durable compaction removes or that are younger than the window. A snapshot becomes
durable while its objects are there, and are younger than the cutoff of a sweep that runs, also
where the sweep has listed them; it removes only what durable compactions remove. -/
def FoldsInTime (config : ColdGcConfig) (state : ColdGc) : Action → Prop
  | .persistSnapshot s =>
    (∀ entry ∈ s.removedFiles.paths, state.durable.Removes entry.2) ∧
      ∀ entry ∈ s.databases.paths, ∃ lastModifiedMs ∈ state.objects.lookup entry.2,
        ∀ sweep ∈ state.sweep, sweep.cutoffMs < lastModifiedMs ∧
          ∀ item ∈ sweep.listed, item.1 = entry.2 → sweep.cutoffMs < item.2
  | .beginSweep =>
    ∀ s ∈ state.durable.snapshots, .wal s ∈ state.mergedFolded ∨
      ∀ entry ∈ s.databases.paths, state.durable.Removes entry.2 ∨
        ∀ lastModifiedMs ∈ state.objects.lookup entry.2,
          state.nowMs - config.keepGenerationsTrailingWindow < lastModifiedMs
  | _ => True

instance (config : ColdGcConfig) (state : ColdGc) :
    ∀ action, Decidable (state.FoldsInTime config action)
  | .persistSnapshot _ => inferInstanceAs (Decidable (_ ∧ _))
  | .beginSweep => inferInstanceAs (Decidable (∀ s ∈ state.durable.snapshots, _))
  | .tick _ | .putObject _ | .persistCompaction _ _ | .cluster _ | .publishWatermarks
  | .addOutputs _ _ | .removeInputs _ _ | .checkpoint _ | .listObject _ | .sweepObject _ =>
    inferInstanceAs (Decidable True)

end ColdGc

end RefluxDb.Write
