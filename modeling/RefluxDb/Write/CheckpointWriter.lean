import RefluxDb.Write.CheckpointView

/-! What the checkpoint writer has read at each of its steps.

The marks are captured first and the tombstones are read last; in between the references whose
objects are gone are taken out and the view is read. Each draft is right for the marks it was begun
with, whatever is published, folded and deleted meanwhile. -/

namespace RefluxDb.Write

open List RefluxDb.Library

namespace Streams

variable {streams : Streams} {cluster next : Cluster} {action : ClusterAction}
variable {marks : InventoryWatermarks} {inner : Inner} {path : String} {store : Store}

/-- A removed path of which every adder has been folded, if it is a writer's. -/
def Evictable (streams : Streams) (cluster : Cluster) (path : String) : Prop :=
  path ∈ streams.removedBy cluster.store ∧
    ((parseGen1Path path).isSome → streams.AddersFolded cluster path)

theorem Evictable.mono (hevictable : streams.Evictable cluster path)
    (hgrows : cluster.Grows next) : streams.Evictable next path :=
  ⟨removedBy_mono hgrows.manifests hevictable.1,
    fun hgen1 => (hevictable.2 hgen1).mono hgrows.folded⟩

/-- What the writer has read so far. -/
def Drafts (streams : Streams) (cluster : Cluster) : CheckpointPhase → Prop
  | .idle | .captured _ => True
  | .refsRead _ refs => ∀ table ∈ refs, ∀ file ∈ table.2,
      (parseGen1Path file.path).isSome → streams.AddersFolded cluster file.path
  | .evicting _ missing => ∀ table ∈ missing, ∀ file ∈ table.2,
      streams.Evictable cluster file.path
  | .evicted _ paths missing => (∀ path ∈ paths, streams.Evictable cluster path) ∧
      ∀ table ∈ missing, ∀ file ∈ table.2, streams.Evictable cluster file.path
  | .merged marks snapshot | .collected marks snapshot =>
    streams.Merged cluster.store marks snapshot
  | .tombstonesRead checkpoint | .walRead checkpoint _ | .ready checkpoint =>
    checkpoint.Sound streams cluster.store

theorem Drafts.mono {phase : CheckpointPhase} (hdrafts : streams.Drafts cluster phase)
    (hgrows : cluster.Grows next) : streams.Drafts next phase := by
  cases phase with
  | idle | captured => trivial
  | refsRead marks refs =>
    exact fun table htable file hfile hgen1 =>
      (hdrafts table htable file hfile hgen1).mono hgrows.folded
  | evicting marks missing =>
    exact fun table htable file hfile => (hdrafts table htable file hfile).mono hgrows
  | evicted marks paths missing =>
    exact ⟨fun path hpath => (hdrafts.1 path hpath).mono hgrows,
      fun table htable file hfile => (hdrafts.2 table htable file hfile).mono hgrows⟩
  | merged marks snapshot | collected marks snapshot =>
    exact Merged.mono hgrows.manifests hdrafts
  | tombstonesRead checkpoint | walRead checkpoint _ | ready checkpoint =>
    exact sound_mono hgrows.manifests hdrafts

/-- Every checkpoint written and every one being written stands for everything up to its marks. -/
structure Recording (streams : Streams) (node : CompactorNode) : Prop where
  viewed : streams.Viewed node.cluster
  gone : ∀ path ∈ node.gone, path ∈ streams.removedBy node.cluster.store
  outputs : ∀ c ∈ node.outputsAdded, c ∈ node.cluster.store.compactions
  handed : node.watermarks.Le node.cluster.poller.watermarks
  retained : node.marksDue = false → streams.Retained node.watermarks node.inner
  held : ∀ marks ∈ node.phase.marksHeld,
    marks.Le node.watermarks ∧ streams.Retained marks node.inner
  drafts : streams.Drafts node.cluster node.phase
  sound : ∀ checkpoint ∈ node.checkpoints, checkpoint.Sound streams node.cluster.store

section Node

variable {node : CompactorNode}

theorem recording_initial (streams : Streams) : streams.Recording {} where
  viewed := streams.viewed_initial
  gone := by simp
  outputs := by simp
  handed := .refl _
  retained _ := streams.guarded_initial.retained
  held := by simp [CheckpointPhase.marksHeld]
  drafts := trivial
  sound := by simp

variable {phase : CheckpointPhase}

theorem Recording.setPhase (hrecording : streams.Recording node)
    (hheld : ∀ marks ∈ phase.marksHeld,
      marks.Le node.watermarks ∧ streams.Retained marks node.inner)
    (hdrafts : streams.Drafts node.cluster phase) :
    streams.Recording { node with phase := phase } :=
  { hrecording with held := hheld, drafts := hdrafts }

theorem grows_setInner (cluster : Cluster) (inner : Inner) :
    cluster.Grows (cluster.setInner inner) :=
  ⟨List.Subset.refl _, List.Subset.refl _, .refl _⟩

section

variable (hrecording : streams.Recording node)
include hrecording

theorem Recording.setInner (hpermits : streams.Permits node.cluster inner)
    (hheld : phase.marksHeld = node.phase.marksHeld) (hdrafts : streams.Drafts node.cluster phase) :
    streams.Recording { node.setInner inner with phase := phase } where
  viewed := hrecording.viewed.setInner hpermits
  gone := hrecording.gone
  outputs := hrecording.outputs
  handed := hrecording.handed
  retained hdue := hpermits.retained (hrecording.retained hdue)
  held marks hmarks := by
    obtain ⟨hle, hretained⟩ := hrecording.held marks (hheld ▸ hmarks)
    exact ⟨hle, hpermits.retained hretained⟩
  drafts := hdrafts.mono (grows_setInner _ _)
  sound := hrecording.sound

/-- The writer's own collection keeps what its marks need, and so what any later marks need. -/
theorem Recording.gcTombstones
    (hheld : phase.marksHeld = node.phase.marksHeld) (hmarks : marks ∈ node.phase.marksHeld)
    (hdrafts : streams.Drafts node.cluster phase) :
    streams.Recording { node.setInner (node.inner.gcTombstones marks.wal marks.compaction) with
      phase := phase } := by
  obtain ⟨hle, hretained⟩ := hrecording.held marks hmarks
  have hkeys := hrecording.viewed.guarded.streaming.keys
  refine { hrecording with
    viewed := hrecording.viewed.gc (hle.trans hrecording.handed)
    retained := fun hdue => ?_
    held := fun marks' hmarks' => ?_
    drafts := hdrafts.mono (grows_setInner _ _) }
  · exact (hrecording.retained hdue).gc hkeys fun _ _ _ => hle.keepsTombstone
  · rw [show phase.marksHeld = some marks from hheld.trans hmarks, Option.mem_some_iff] at hmarks'
    subst hmarks'
    exact ⟨hle, hretained.gc hkeys fun _ _ _ hkept => hkept⟩

/-- A step in stream order, if the collection at the end of a tick keeps what marks held by the
checkpoint writer keep. -/
theorem Recording.clusterStep (hinorder : streams.InOrder node.cluster action)
    (hgrounds : ∀ s, action = .publishWal s → node.cluster.store.Grounds s)
    (hgc : action = .poll .gc → ∀ marks ∈ node.phase.marksHeld, ∀ path gc,
      gc ∈ node.inner.removedTombstones.lookup path →
        Inner.keepsTombstone marks.wal marks.compaction gc = true →
          Inner.keepsTombstone node.cluster.poller.walCursors
            node.cluster.poller.compactionCursor gc = true)
    (hstep : node.cluster.step action = some next) :
    streams.Recording { node with
      cluster := next, marksDue := node.marksDue || CompactorNode.endsTick action } := by
  have hgrows := grows_step hrecording.viewed.guarded.streaming hstep
  have hkeys := hrecording.viewed.guarded.streaming.keys
  refine ⟨hrecording.viewed.step hinorder hgrounds hstep,
    fun path hpath => removedBy_mono hgrows.manifests (hrecording.gone path hpath), fun c hc => ?_,
    hrecording.handed.trans hgrows.watermarks, ?_, ?_, hrecording.drafts.mono hgrows,
    fun checkpoint hmem => sound_mono hgrows.manifests (hrecording.sound checkpoint hmem)⟩
  · exact Store.compaction_mem_manifests.mp
      (hgrows.manifests (Store.compaction_mem_manifests.mpr (hrecording.outputs c hc)))
  · intro hdue
    obtain ⟨hdue, hends⟩ := Bool.or_eq_false_iff.mp hdue
    change streams.Retained node.watermarks next.poller.inner
    obtain ⟨hinner, _⟩ | ⟨_, m, _, hinner, _⟩ | ⟨rfl, _⟩ := view_step hstep
    · exact hinner ▸ hrecording.retained hdue
    · exact hinner ▸ (hrecording.retained hdue).fold
    · simp [CompactorNode.endsTick] at hends
  · intro marks hmarks
    obtain ⟨hle, hretained⟩ := hrecording.held marks hmarks
    refine ⟨hle, ?_⟩
    change streams.Retained marks next.poller.inner
    obtain ⟨hinner, _⟩ | ⟨_, m, _, hinner, _⟩ | ⟨rfl, hinner, _⟩ := view_step hstep
    · exact hinner ▸ hretained
    · exact hinner ▸ hretained.fold
    · exact hinner ▸ hretained.gc hkeys (hgc rfl marks hmarks)

theorem Recording.readRefs :
    streams.Drafts node.cluster (.refsRead marks node.inner.snapshotAll.tables) := by
  have hguarded := hrecording.viewed.guarded
  intro table htable file hfile hgen1
  have hlisted : (table.1, file.path) ∈ node.inner.snapshotAll.paths :=
    mem_paths_tables.mpr ⟨table, htable, rfl, mem_map_of_mem hfile⟩
  have hlive := mem_snapshotAll_paths.mp hlisted
  have hkey : table.1 = streams.tableOf file.path := hguarded.place _ hlive
  rw [hkey] at hlive
  obtain ⟨m, hm, hadds⟩ := hguarded.source file.path hlive hgen1
  exact addersFolded_of_mem hguarded.streaming hm hadds

theorem Recording.listObjects {refs : List (TableKey × List ParquetFile)}
    (hdrafts : streams.Drafts node.cluster (.refsRead marks refs)) :
    streams.Drafts node.cluster (.evicting marks (CompactorNode.missingRefs node.gone refs)) := by
  intro missing hmissing file hfile
  obtain ⟨table, htable, rfl⟩ := mem_map.mp (mem_of_mem_filter hmissing)
  obtain ⟨hfile, hgone⟩ := mem_filter.mp hfile
  rw [decide_eq_true_eq] at hgone
  exact ⟨hrecording.gone _ hgone.1, hdrafts table htable file hfile⟩

end

theorem sound_survivors {checkpoint : Checkpoint} (hsound : checkpoint.Sound streams store)
    (survivors : List (String × Nat))
    (hremoved : ∀ entry ∈ survivors, entry.1 ∈ streams.removedBy store) :
    Checkpoint.Sound streams store
      { checkpoint with tombstones := checkpoint.tombstones ++ survivors } where
  toMerged := hsound.toMerged
  tombstones_removed path hpath := by
    rw [map_append, append_assoc, mem_append, mem_append] at hpath
    rcases hpath with hold | hsurvivor | hcompaction
    · exact hsound.tombstones_removed path (mem_append_left _ hold)
    · obtain ⟨entry, hentry, rfl⟩ := mem_map.mp hsurvivor
      exact hremoved entry hentry
    · exact hsound.tombstones_removed path (mem_append_right _ hcompaction)
  tombstones_kept path hstraddles := by
    rw [map_append]
    exact mem_append_left _ (hsound.tombstones_kept path hstraddles)

/-- A step of the checkpoint writer, if it captures marks that have been handed out since the last
collection. -/
theorem Recording.checkpointStep {next : CompactorNode} {action : CheckpointAction}
    (hrecording : streams.Recording node) (hcapture : action = .capture → node.marksDue = false)
    (hstep : node.checkpointStep action = some next) : streams.Recording next := by
  have hheld := hrecording.held
  have hdrafts := hrecording.drafts
  cases action <;> simp only [CompactorNode.checkpointStep] at hstep
  case capture =>
    split at hstep <;> cases hstep
    refine hrecording.setPhase (fun marks hmarks => ?_) trivial
    obtain rfl := Option.some.inj hmarks
    exact ⟨.refl _, hrecording.retained (hcapture rfl)⟩
  case readRefs =>
    split at hstep <;> cases hstep
    rename_i hphase
    rw [hphase] at hheld
    exact hrecording.setPhase hheld hrecording.readRefs
  case listObjects =>
    split at hstep <;> cases hstep
    rename_i hphase
    rw [hphase] at hheld hdrafts
    exact hrecording.setPhase hheld (hrecording.listObjects hdrafts)
  case evict =>
    split at hstep <;> cases hstep
    rename_i marks key files rest hphase
    rw [hphase] at hdrafts
    obtain ⟨hfiles, hrest⟩ := forall_mem_cons.mp hdrafts
    refine hrecording.setInner (permits_removePersistedFiles key fun file hfile =>
      (hfiles file hfile).1) (by rw [hphase]; rfl) ⟨fun path hpath => ?_, hrest⟩
    obtain ⟨file, hfile, rfl⟩ := mem_map.mp hpath
    exact hfiles file hfile
  case tombstoneEvicted =>
    split at hstep <;> cases hstep
    rename_i marks paths rest hphase
    rw [hphase] at hdrafts
    exact hrecording.setInner (permits_tombstoneEvicted hdrafts.1) (by rw [hphase]; rfl) hdrafts.2
  case snapshotAll =>
    split at hstep <;> cases hstep
    rename_i marks hphase
    rw [hphase] at hheld
    exact hrecording.setPhase hheld
      (hrecording.viewed.merged node.nodeId ((hheld marks rfl).1.trans hrecording.handed))
  case gcTombstones =>
    split at hstep <;> cases hstep
    rename_i marks snapshot hphase
    rw [hphase] at hdrafts
    exact hrecording.gcTombstones (by rw [hphase]; rfl) (by rw [hphase]; rfl) hdrafts
  case readTombstones =>
    split at hstep <;> cases hstep
    rename_i marks snapshot hphase
    rw [hphase] at hheld hdrafts
    exact hrecording.setPhase (by simp [CheckpointPhase.marksHeld])
      (hrecording.viewed.sound hdrafts (hheld marks rfl).2)
  case loadWal listing =>
    split at hstep
    case h_1 checkpoint hphase =>
      rw [hphase] at hdrafts
      rw [Option.ite_none_right_eq_some, Option.some.injEq] at hstep
      obtain ⟨_, rfl⟩ := hstep
      exact hrecording.setPhase (by simp [CheckpointPhase.marksHeld]) hdrafts
    case h_2 => cases hstep
  case findSurvivors =>
    split at hstep <;> cases hstep
    rename_i checkpoint candidates hphase
    rw [hphase] at hdrafts
    have hremoved : ∀ entry ∈ candidates.filter fun entry => ConfirmedMissing node.gone entry.1,
        entry.1 ∈ streams.removedBy node.cluster.store := by
      intro entry hentry
      have hgone := (mem_filter.mp hentry).2
      rw [decide_eq_true_eq] at hgone
      exact hrecording.gone _ hgone.1
    have hsound := sound_survivors hdrafts _ hremoved
    exact hrecording.setPhase (by simp [CheckpointPhase.marksHeld]) hsound
  case write =>
    split at hstep <;> cases hstep
    rename_i checkpoint hphase
    rw [hphase] at hdrafts
    refine { hrecording with
      held := by simp [CheckpointPhase.marksHeld]
      drafts := trivial
      sound := fun written hmem => ?_ }
    rcases mem_concat.mp hmem with hold | rfl
    · exact hrecording.sound written hold
    · exact hdrafts

end Node

end Streams

end RefluxDb.Write
