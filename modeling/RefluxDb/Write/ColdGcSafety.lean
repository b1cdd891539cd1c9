import RefluxDb.Write.ColdGc

/-! When the cold sweep leaves live files alone.

The view loses a gen1 file only when a durable compaction removes it, as long as the object of
every live file is there. So a file of a folded snapshot is in the merged view unless a durable
compaction removes it, and what else is durable is too young for the sweep. -/

namespace RefluxDb.Write

open List Option RefluxDb.Library

namespace Durable

/-- A writer's snapshot lists the path. -/
def Lists (durable : Durable) (path : String) : Prop :=
  ∃ s ∈ durable.snapshots, path ∈ s.databases.paths.map Prod.snd

def Has (durable : Durable) : Manifest → Prop
  | .wal s => s ∈ durable.snapshots
  | .compaction id s => (id, s) ∈ durable.compactions

def Le (durable durable' : Durable) : Prop :=
  durable.snapshots ⊆ durable'.snapshots ∧ durable.compactions ⊆ durable'.compactions

/-- Writers add gen1 files and compactions do not; writers remove only what compactions remove. -/
structure Grounded (durable : Durable) : Prop where
  gen1 : ∀ s ∈ durable.snapshots, ∀ entry ∈ s.databases.paths, (parseGen1Path entry.2).isSome
  outputs : ∀ c ∈ durable.compactions, ∀ entry ∈ c.2.databases.paths, parseGen1Path entry.2 = none
  removals : ∀ s ∈ durable.snapshots, ∀ entry ∈ s.removedFiles.paths, durable.Removes entry.2

variable {durable durable' : Durable} {path : String} {key : TableKey} {m : Manifest}
variable {inner inner' : Inner} {folded : List Manifest} {snapshot : PersistedSnapshot}

theorem Removes.mono (hremoves : durable.Removes path) (hle : durable.Le durable') :
    durable'.Removes path := by
  obtain ⟨c, hc, hpath⟩ := hremoves
  exact ⟨c, hle.2 hc, hpath⟩

theorem Lists.mono (hlists : durable.Lists path) (hle : durable.Le durable') :
    durable'.Lists path := by
  obtain ⟨s, hs, hpath⟩ := hlists
  exact ⟨s, hle.1 hs, hpath⟩

theorem Has.mono (hhas : durable.Has m) (hle : durable.Le durable') : durable'.Has m := by
  cases m with
  | wal s => exact hle.1 hhas
  | compaction id s => exact hle.2 hhas

theorem le_persistCompaction (durable : Durable) (c : String × PersistedSnapshot) :
    durable.Le { durable with compactions := durable.compactions ++ [c] } :=
  ⟨List.Subset.refl _, subset_append_left _ _⟩

section

variable (hgrounded : durable.Grounded)
include hgrounded

/-- What a durable manifest removes, a durable compaction removes. -/
theorem Grounded.of_mem_removes (hhas : durable.Has m)
    (hremoves : (key, path) ∈ m.removes) : durable.Removes path := by
  cases m with
  | wal s => exact hgrounded.removals s hhas (key, path) hremoves
  | compaction id s => exact ⟨(id, s), hhas, mem_map_of_mem hremoves⟩

/-- A gen1 file that a durable manifest adds is listed by a writer's snapshot. -/
theorem Grounded.of_mem_adds (hhas : durable.Has m)
    (hadds : (key, path) ∈ m.adds) (hgen1 : (parseGen1Path path).isSome) : durable.Lists path := by
  cases m with
  | wal s => exact ⟨s, hhas, mem_map_of_mem hadds⟩
  | compaction id s => simp [hgrounded.outputs (id, s) hhas (key, path) hadds] at hgen1

theorem Grounded.persistSnapshot {s : PersistedSnapshot}
    (hgen1 : ∀ entry ∈ s.databases.paths, (parseGen1Path entry.2).isSome)
    (hremovals : ∀ entry ∈ s.removedFiles.paths, durable.Removes entry.2) :
    ({ durable with snapshots := durable.snapshots ++ [s] } : Durable).Grounded where
  gen1 := forall_mem_concat.mpr ⟨hgrounded.gen1, hgen1⟩
  outputs := hgrounded.outputs
  removals := forall_mem_concat.mpr ⟨hgrounded.removals, hremovals⟩

theorem Grounded.persistCompaction {c : String × PersistedSnapshot}
    (houtputs : ∀ entry ∈ c.2.databases.paths, parseGen1Path entry.2 = none) :
    ({ durable with compactions := durable.compactions ++ [c] } : Durable).Grounded where
  gen1 := hgrounded.gen1
  outputs := forall_mem_concat.mpr ⟨hgrounded.outputs, houtputs⟩
  removals s hs entry hentry :=
    (hgrounded.removals s hs entry hentry).mono (durable.le_persistCompaction c)

end

/-- What a change of the view may do to gen1 files: those that appear are listed, and those that
disappear or are tombstoned are removed by a durable compaction. -/
structure Alters (durable : Durable) (inner inner' : Inner) : Prop where
  appears : ∀ key path, (key, path) ∈ inner'.files.paths → (parseGen1Path path).isSome →
    (key, path) ∈ inner.files.paths ∨ durable.Lists path
  disappears : ∀ key path, (key, path) ∈ inner.files.paths → (parseGen1Path path).isSome →
    durable.Removes path ∨ (key, path) ∈ inner'.files.paths
  buries : ∀ path ∈ inner'.removedTombstones, (parseGen1Path path).isSome →
    path ∈ inner.removedTombstones ∨ durable.Removes path

/-- Live files of folded snapshots are in the view, and no live file has a tombstone. -/
structure Views (durable : Durable) (inner : Inner) (folded : List Manifest) : Prop where
  sourced : ∀ key path, (key, path) ∈ inner.files.paths → (parseGen1Path path).isSome →
    durable.Lists path
  buried : ∀ path ∈ inner.removedTombstones, (parseGen1Path path).isSome → durable.Removes path
  kept : ∀ s, .wal s ∈ folded → ∀ entry ∈ s.databases.paths,
    durable.Removes entry.2 ∨ entry ∈ inner.files.paths

theorem Views.mono (hviews : durable.Views inner folded) (hle : durable.Le durable') :
    durable'.Views inner folded where
  sourced key path hpath hgen1 := (hviews.sourced key path hpath hgen1).mono hle
  buried path hpath hgen1 := (hviews.buried path hpath hgen1).mono hle
  kept s hs entry hentry := (hviews.kept s hs entry hentry).imp_left fun h => h.mono hle

theorem Views.alter (hviews : durable.Views inner folded) (halters : durable.Alters inner inner')
    (hfolded : ∀ s, .wal s ∈ folded → ∀ entry ∈ s.databases.paths, (parseGen1Path entry.2).isSome) :
    durable.Views inner' folded where
  sourced key path hpath hgen1 := by
    rcases halters.appears key path hpath hgen1 with hold | hlists
    · exact hviews.sourced key path hold hgen1
    · exact hlists
  buried path hpath hgen1 := by
    rcases halters.buries path hpath hgen1 with hold | hremoves
    · exact hviews.buried path hold hgen1
    · exact hremoves
  kept s hs entry hentry := by
    rcases hviews.kept s hs entry hentry with hremoves | hlive
    · exact .inl hremoves
    · exact halters.disappears entry.1 entry.2 hlive (hfolded s hs entry hentry)

theorem alters_fold (hgrounded : durable.Grounded) (hhas : durable.Has m) :
    durable.Alters inner (inner.fold m) where
  appears key path hpath hgen1 := by
    rcases (mem_fold_paths.mp hpath).1 with hold | ⟨hadds, _⟩
    · exact .inl hold
    · exact .inr (hgrounded.of_mem_adds hhas hadds hgen1)
  disappears key path hpath _ := by
    by_cases hremoves : (key, path) ∈ m.removes
    · exact .inl (hgrounded.of_mem_removes hhas hremoves)
    · exact .inr (mem_fold_paths.mpr ⟨.inl hpath, hremoves⟩)
  buries path hpath _ := by
    rw [Inner.fold_eq, mem_addPersistedSnapshot_tombstones] at hpath
    rcases hpath with hold | ⟨⟨key, hremoves, _⟩, _⟩
    · exact .inl hold
    · exact .inr (hgrounded.of_mem_removes hhas hremoves)

/-- A fold brings the files of its manifest into the view, unless a compaction removes them. -/
theorem Views.fold (hviews : durable.Views inner folded) (hgrounded : durable.Grounded)
    (hhas : durable.Has m)
    (hfolded : ∀ s, .wal s ∈ folded → ∀ entry ∈ s.databases.paths,
      (parseGen1Path entry.2).isSome) :
    durable.Views (inner.fold m) (folded ++ [m]) := by
  obtain ⟨hsourced, hburied, hkept⟩ := hviews.alter (alters_fold hgrounded hhas) hfolded
  refine ⟨hsourced, hburied, fun s hs entry hentry => ?_⟩
  rcases mem_concat.mp hs with hold | rfl
  · exact hkept s hold entry hentry
  · by_cases hremoves : durable.Removes entry.2
    · exact .inl hremoves
    · have hgen1 := hgrounded.gen1 s hhas entry hentry
      refine .inr (mem_fold_paths.mpr ⟨.inr ⟨hentry, fun hburied => ?_⟩, fun hgone => ?_⟩)
      · exact hremoves (hviews.buried entry.2 hburied hgen1)
      · exact hremoves (hgrounded.of_mem_removes hhas hgone)

theorem alters_gcTombstones (durable : Durable) (inner : Inner) (wal : String → Nat)
    (compaction : Option String) : durable.Alters inner (inner.gcTombstones wal compaction) where
  appears _ _ hpath _ := .inl hpath
  disappears _ _ hpath _ := .inr hpath
  buries _ hpath _ := .inl (mem_of_mem_retain hpath)

theorem alters_addOutputs (hgrounded : durable.Grounded) {id : String}
    (hdurable : (id, snapshot) ∈ durable.compactions) :
    durable.Alters inner (CompactorNode.addOutputs inner snapshot) := by
  obtain ⟨htombstones, hpaths⟩ := addOutputs_spec inner snapshot
  refine ⟨fun key path hpath hgen1 => ?_, fun key path hpath _ => ?_, fun path hpath _ => ?_⟩
  · rcases (hpaths key path).mp hpath with hold | hadds
    · exact .inl hold
    · simp [hgrounded.outputs _ hdurable (key, path) hadds] at hgen1
  · exact .inr ((hpaths key path).mpr (.inl hpath))
  · exact .inl (htombstones ▸ hpath)

theorem alters_removeInputs {id : String} (hdurable : (id, snapshot) ∈ durable.compactions) :
    durable.Alters inner (CompactorNode.removeInputs inner snapshot) := by
  obtain ⟨htombstones, hpaths⟩ := removeInputs_spec inner snapshot
  refine ⟨fun key path hpath _ => .inl ((hpaths key path).mp hpath).1,
    fun key path hpath _ => ?_, fun path hpath _ => .inl (htombstones ▸ hpath)⟩
  by_cases hremoves : (key, path) ∈ snapshot.removedFiles.paths
  · exact .inl ⟨(id, snapshot), hdurable, mem_map_of_mem hremoves⟩
  · exact .inr ((hpaths key path).mpr ⟨hpath, hremoves⟩)

theorem alters_removePersistedFiles {files : List ParquetFile}
    (hremoved : ∀ file ∈ files, (parseGen1Path file.path).isSome → durable.Removes file.path) :
    durable.Alters inner (inner.removePersistedFiles key files) where
  appears _ _ hpath _ := .inl (mem_removePersistedFiles_paths.mp hpath).1
  disappears key' path hpath hgen1 := by
    by_cases htarget : key' = key ∧ path ∈ files.map (·.path)
    · obtain ⟨file, hfile, rfl⟩ := mem_map.mp htarget.2
      exact .inl (hremoved file hfile hgen1)
    · exact .inr (mem_removePersistedFiles_paths.mpr ⟨hpath, htarget⟩)
  buries _ hpath _ := .inl hpath

theorem alters_tombstoneEvicted {paths : List String}
    (hremoved : ∀ path ∈ paths, (parseGen1Path path).isSome → durable.Removes path) :
    durable.Alters inner (inner.tombstoneEvicted paths) := by
  have hevicts := inner.evicts_tombstoneEvicted paths
  refine ⟨fun key path hpath _ => ?_, fun key path hpath _ => ?_, fun path hpath hgen1 => ?_⟩
  · rw [hevicts.files] at hpath
    exact .inl hpath
  · rw [hevicts.files]
    exact .inr hpath
  obtain ⟨gc, hgc⟩ := mem_iff_exists_lookup.mp hpath
  rcases hevicts.fresh path gc hgc with hold | ⟨_, hmem⟩
  · exact .inl (mem_iff_exists_lookup.mpr ⟨gc, hold⟩)
  · exact .inr (hremoved path hmem hgen1)

/-- Everything that is published, loaded or folded is durable. -/
structure Publishes (durable : Durable) (cluster : Cluster) : Prop where
  wal : ∀ s ∈ cluster.store.walSnapshots, s ∈ durable.snapshots
  compactions : ∀ c ∈ cluster.store.compactions, c ∈ durable.compactions
  newWal : ∀ s ∈ cluster.poller.newWal, s ∈ durable.snapshots
  newCompactions : ∀ c ∈ cluster.poller.newCompactions, c ∈ durable.compactions
  folded : ∀ m ∈ cluster.poller.folded, durable.Has m

variable {cluster next : Cluster} {action : ClusterAction}

section

variable (hpublishes : durable.Publishes cluster)
include hpublishes

theorem Publishes.mono (hle : durable.Le durable') :
    durable'.Publishes cluster where
  wal s hs := hle.1 (hpublishes.wal s hs)
  compactions c hc := hle.2 (hpublishes.compactions c hc)
  newWal s hs := hle.1 (hpublishes.newWal s hs)
  newCompactions c hc := hle.2 (hpublishes.newCompactions c hc)
  folded m hm := (hpublishes.folded m hm).mono hle

theorem Publishes.setInner (inner : Inner) :
    durable.Publishes (cluster.setInner inner) :=
  { hpublishes with }

theorem Publishes.has_nextManifest
    (hnext : cluster.poller.nextManifest = some m) : durable.Has m := by
  unfold Poller.nextManifest at hnext
  split at hnext
  case h_1 s rest hwal =>
    obtain rfl := some.inj hnext
    exact hpublishes.newWal s (by simp [hwal])
  case h_2 c rest _ hcompactions =>
    obtain rfl := some.inj hnext
    exact hpublishes.newCompactions c (by simp [hcompactions])
  case h_3 => simp at hnext

theorem Publishes.poll {pollerAction : PollerAction}
    {poller : Poller} (hstep : cluster.poller.step cluster.store pollerAction = some poller) :
    durable.Publishes { cluster with poller := poller } := by
  have hfolded := hpublishes.folded
  cases pollerAction with
  | loadWal listing unreadable =>
    obtain ⟨⟨_, hlisting⟩, rfl⟩ := Poller.step_loadWal hstep
    refine { hpublishes with newWal := fun s hs => ?_ }
    exact hpublishes.wal s (hlisting.mem_iff.mp (mem_loadAllWalSnapshots.mp hs).1)
  | loadCompactions listing unreadable =>
    obtain ⟨⟨_, hlisting⟩, rfl⟩ := Poller.step_loadCompactions hstep
    refine { hpublishes with newCompactions := fun c hc => ?_ }
    exact hpublishes.compactions c (hlisting.mem_iff.mp (mem_loadAllCompactions.mp hc).1)
  | fail =>
    obtain ⟨_, rfl⟩ := Poller.step_fail hstep
    exact { hpublishes with newWal := by simp }
  | fold =>
    obtain ⟨_, ⟨s, rest, hwal, rfl⟩ | ⟨c, rest, _, hcompactions, rfl⟩⟩ := Poller.step_fold hstep
    · obtain ⟨hs, hrest⟩ := forall_mem_cons.mp (hwal ▸ hpublishes.newWal)
      refine { hpublishes with newWal := hrest, folded := ?_ }
      exact forall_mem_concat.mpr ⟨hfolded, hs⟩
    · obtain ⟨hc, hrest⟩ := forall_mem_cons.mp (hcompactions ▸ hpublishes.newCompactions)
      refine { hpublishes with newCompactions := hrest, folded := ?_ }
      exact forall_mem_concat.mpr ⟨hfolded, hc⟩
  | gc =>
    obtain ⟨_, rfl⟩ := Poller.step_gc hstep
    exact { hpublishes with }

end

end Durable

namespace ColdGc

variable {durable durable' : Durable} {mergedFolded : List Manifest} {config : ColdGcConfig}
variable {state next : ColdGc} {path : String} {node : CompactorNode}

/-- The merged view has the live files of every snapshot folded before. -/
def Shows (durable : Durable) (mergedFolded : List Manifest) (merged : PersistedSnapshot) : Prop :=
  ∀ s, .wal s ∈ mergedFolded → ∀ entry ∈ s.databases.paths,
    durable.Removes entry.2 ∨ entry.2 ∈ merged.databases.paths.map Prod.snd

/-- Where a gen1 file is missing, a durable compaction removes it. -/
def AllRemoved (durable : Durable) (missing : List (TableKey × List ParquetFile)) : Prop :=
  ∀ table ∈ missing, ∀ file ∈ table.2, (parseGen1Path file.path).isSome →
    durable.Removes file.path

/-- What the checkpoint writer has read so far. -/
def Drafts (durable : Durable) (mergedFolded : List Manifest) : CheckpointPhase → Prop
  | .idle | .captured _ => True
  | .refsRead _ refs => ∀ table ∈ refs, ∀ file ∈ table.2, (parseGen1Path file.path).isSome →
      durable.Lists file.path
  | .evicting _ missing => AllRemoved durable missing
  | .evicted _ paths missing =>
    (∀ path ∈ paths, (parseGen1Path path).isSome → durable.Removes path) ∧
      AllRemoved durable missing
  | .merged _ snapshot | .collected _ snapshot => Shows durable mergedFolded snapshot
  | .tombstonesRead checkpoint | .walRead checkpoint _ | .ready checkpoint =>
    Shows durable mergedFolded checkpoint.mergedSnapshot

theorem Shows.mono {merged : PersistedSnapshot} (hshows : Shows durable mergedFolded merged)
    (hle : durable.Le durable') : Shows durable' mergedFolded merged :=
  fun s hs entry hentry => (hshows s hs entry hentry).imp_left fun h => h.mono hle

theorem AllRemoved.mono {missing : List (TableKey × List ParquetFile)}
    (hremoved : AllRemoved durable missing) (hle : durable.Le durable') :
    AllRemoved durable' missing :=
  fun table htable file hfile hgen1 => (hremoved table htable file hfile hgen1).mono hle

variable {phase : CheckpointPhase}

theorem Drafts.mono (hdrafts : Drafts durable mergedFolded phase)
    (hle : durable.Le durable') : Drafts durable' mergedFolded phase := by
  cases phase with
  | idle | captured => trivial
  | refsRead marks refs =>
    exact fun table htable file hfile hgen1 => (hdrafts table htable file hfile hgen1).mono hle
  | evicting marks missing => exact AllRemoved.mono hdrafts hle
  | evicted marks paths missing =>
    exact ⟨fun path hpath hgen1 => (hdrafts.1 path hpath hgen1).mono hle, hdrafts.2.mono hle⟩
  | merged marks snapshot | collected marks snapshot => exact Shows.mono hdrafts hle
  | tombstonesRead checkpoint | walRead checkpoint _ | ready checkpoint =>
    exact Shows.mono hdrafts hle

/-- What holds of the compactor. -/
structure Sheltered (durable : Durable) (mergedFolded : List Manifest) (node : CompactorNode) :
    Prop where
  publishes : durable.Publishes node.cluster
  outputs : ∀ c ∈ node.outputsAdded, c ∈ durable.compactions
  views : durable.Views node.inner node.cluster.poller.folded
  drafts : Drafts durable mergedFolded node.phase

/-- The objects of live files are there; those that a running sweep has not found live are younger
than its cutoff, and it has listed none that was older. -/
structure Stored (durable : Durable) (objects : AList fun _ : String => Int) (gone : List String)
    (sweep : Option ColdSweep) : Prop where
  apart : ∀ path ∈ gone, path ∉ objects
  present : ∀ path, durable.Live path → path ∈ objects
  young : ∀ running ∈ sweep, ∀ path, durable.Live path → path ∈ running.live ∨
    (∀ lastModifiedMs ∈ objects.lookup path, running.cutoffMs < lastModifiedMs) ∧
      ∀ item ∈ running.listed, item.1 = path → running.cutoffMs < item.2

structure Inv (state : ColdGc) : Prop where
  grounded : state.durable.Grounded
  sheltered : Sheltered state.durable state.mergedFolded state.node
  stored : Stored state.durable state.objects state.node.gone state.sweep
  clock : ∀ running ∈ state.sweep, running.cutoffMs < state.nowMs

theorem Inv.neverSweepsLive (hinv : Inv state) : state.NeverSweepsLive config := by
  rintro path ⟨running, hrunning, _, item, hitem, hpath, hdelete⟩ hlive
  simp only [coldGcShouldDelete, Bool.and_eq_true, decide_eq_true_eq] at hdelete
  rcases hinv.stored.young running hrunning path hlive with hmem | hyoung
  · exact hdelete.2 hmem
  · exact absurd hdelete.1.2 (not_le.mpr (hyoung.2 item hitem hpath))

section

variable (hsheltered : Sheltered durable mergedFolded node)
include hsheltered

theorem Sheltered.mono (hle : durable.Le durable') : Sheltered durable' mergedFolded node where
  publishes := hsheltered.publishes.mono hle
  outputs c hc := hle.2 (hsheltered.outputs c hc)
  views := hsheltered.views.mono hle
  drafts := hsheltered.drafts.mono hle

theorem Sheltered.gen1_folded (hgrounded : durable.Grounded) {s : PersistedSnapshot}
    (hs : .wal s ∈ node.cluster.poller.folded) {entry : TableKey × String}
    (hentry : entry ∈ s.databases.paths) : (parseGen1Path entry.2).isSome :=
  hgrounded.gen1 s (hsheltered.publishes.folded _ hs) entry hentry

theorem Sheltered.setInner
    (hgrounded : durable.Grounded) {inner : Inner} (halters : durable.Alters node.inner inner)
    (hdrafts : Drafts durable mergedFolded phase) :
    Sheltered durable mergedFolded { node.setInner inner with phase := phase } where
  publishes := hsheltered.publishes.setInner inner
  outputs := hsheltered.outputs
  views := hsheltered.views.alter halters fun _ hs _ hentry =>
    hsheltered.gen1_folded hgrounded hs hentry
  drafts := hdrafts

theorem Sheltered.setPhase (hdrafts : Drafts durable mergedFolded phase) :
    Sheltered durable mergedFolded { node with phase := phase } :=
  { hsheltered with drafts := hdrafts }

theorem Sheltered.cluster
    (hgrounded : durable.Grounded) {action : ClusterAction} {cluster : Cluster}
    (hwal : ∀ s, action = .publishWal s → s ∈ durable.snapshots)
    (hcompaction : ∀ id s, action = .publishCompaction id s → (id, s) ∈ durable.compactions)
    (hstep : node.cluster.step action = some cluster) :
    durable.Publishes cluster ∧ durable.Views cluster.poller.inner cluster.poller.folded := by
  have hpublishes := hsheltered.publishes
  have hgen1 : ∀ s, .wal s ∈ node.cluster.poller.folded → ∀ entry ∈ s.databases.paths,
      (parseGen1Path entry.2).isSome := fun _ hs _ hentry =>
    hsheltered.gen1_folded hgrounded hs hentry
  constructor
  · cases action with
    | publishWal s =>
      obtain ⟨store, hstore, rfl⟩ := map_eq_some_iff.mp hstep
      obtain ⟨_, hsnapshots, hcompactions⟩ := Store.publishWalSnapshot_eq_some hstore
      refine { hpublishes with wal := ?_, compactions := ?_ }
      · rw [hsnapshots]
        exact forall_mem_concat.mpr ⟨hpublishes.wal, hwal s rfl⟩
      · rw [hcompactions]
        exact hpublishes.compactions
    | mint id s =>
      simp only [Cluster.step, ite_none_right_eq_some, some.injEq] at hstep
      obtain ⟨_, rfl⟩ := hstep
      exact { hpublishes with }
    | publishCompaction id s =>
      simp only [Cluster.step, ite_none_right_eq_some, map_eq_some_iff] at hstep
      obtain ⟨_, store, hstore, rfl⟩ := hstep
      obtain ⟨_, hcompactions, hsnapshots⟩ := Store.publishCompaction_eq_some hstore
      refine { hpublishes with wal := ?_, compactions := ?_ }
      · rw [hsnapshots]
        exact hpublishes.wal
      · rw [hcompactions]
        exact forall_mem_concat.mpr ⟨hpublishes.compactions, hcompaction id s rfl⟩
    | poll pollerAction =>
      obtain ⟨poller, hpoller, rfl⟩ := map_eq_some_iff.mp hstep
      exact hpublishes.poll hpoller
  · obtain ⟨hinner, hfolded⟩ | ⟨_, m, hnext, hinner, hfolded⟩ | ⟨_, hinner, hfolded⟩ :=
      Streams.view_step hstep
    · rw [hinner, hfolded]
      exact hsheltered.views
    · rw [hinner, hfolded]
      exact hsheltered.views.fold hgrounded (hpublishes.has_nextManifest hnext) hgen1
    · rw [hinner, hfolded]
      exact hsheltered.views.alter (durable.alters_gcTombstones _ _ _) hgen1

end

variable {objects : AList fun _ : String => Int} {sweep : Option ColdSweep}

/-- A reference whose object is gone is to a file that a durable compaction removes. -/
theorem allRemoved_missingRefs {gone : List String} (hstored : Stored durable objects gone sweep)
    {refs : List (TableKey × List ParquetFile)}
    (hlists : ∀ table ∈ refs, ∀ file ∈ table.2, (parseGen1Path file.path).isSome →
      durable.Lists file.path) :
    AllRemoved durable (CompactorNode.missingRefs gone refs) := by
  intro table htable file hfile hgen1
  obtain ⟨listed, hlisted, rfl⟩ := mem_map.mp (mem_filter.mp htable).1
  obtain ⟨hmem, hmissing⟩ := mem_filter.mp hfile
  rw [decide_eq_true_eq] at hmissing
  by_contra hremoves
  exact hstored.apart file.path hmissing.1
    (hstored.present file.path ⟨hlists listed hlisted file hmem hgen1, hremoves⟩)

/-- The merged view shows what the poller has folded. -/
theorem Sheltered.shows (hsheltered : Sheltered durable mergedFolded node) :
    Shows durable node.cluster.poller.folded
      (CompactorNode.mergedSnapshot node.nodeId node.inner) := by
  intro s hs entry hentry
  refine (hsheltered.views.kept s hs entry hentry).imp_right fun hlive => ?_
  exact mem_map_of_mem (mem_snapshotAll_paths.mpr hlive)

theorem gone_setInner (node : CompactorNode) (inner : Inner) (phase : CheckpointPhase) :
    ({ node.setInner inner with phase := phase } : CompactorNode).gone = node.gone :=
  rfl

variable {action : CheckpointAction}

theorem Sheltered.checkpointStep (hsheltered : Sheltered durable mergedFolded node)
    (hgrounded : durable.Grounded) (hstored : Stored durable objects node.gone sweep)
    {node' : CompactorNode}
    (hstep : node.checkpointStep action = some node') :
    Sheltered durable (foldedAt node mergedFolded action) node' ∧ node'.gone = node.gone := by
  have hdrafts := hsheltered.drafts
  cases action <;> simp only [CompactorNode.checkpointStep] at hstep
  case capture =>
    split at hstep <;> cases hstep
    exact ⟨hsheltered.setPhase trivial, rfl⟩
  case readRefs =>
    split at hstep <;> cases hstep
    refine ⟨hsheltered.setPhase fun table htable file hfile hgen1 => ?_, rfl⟩
    have hlisted : (table.1, file.path) ∈ node.inner.snapshotAll.paths :=
      mem_paths_tables.mpr ⟨table, htable, rfl, mem_map_of_mem hfile⟩
    exact hsheltered.views.sourced _ _ (mem_snapshotAll_paths.mp hlisted) hgen1
  case listObjects =>
    split at hstep <;> cases hstep
    rename_i hphase
    rw [hphase] at hdrafts
    exact ⟨hsheltered.setPhase (allRemoved_missingRefs hstored hdrafts), rfl⟩
  case evict =>
    split at hstep <;> cases hstep
    rename_i marks key files rest hphase
    rw [hphase] at hdrafts
    obtain ⟨hfiles, hrest⟩ := forall_mem_cons.mp hdrafts
    refine ⟨hsheltered.setInner hgrounded (Durable.alters_removePersistedFiles hfiles)
      ⟨fun path hpath => ?_, hrest⟩, rfl⟩
    obtain ⟨file, hfile, rfl⟩ := mem_map.mp hpath
    exact hfiles file hfile
  case tombstoneEvicted =>
    split at hstep <;> cases hstep
    rename_i marks paths rest hphase
    rw [hphase] at hdrafts
    exact ⟨hsheltered.setInner hgrounded (Durable.alters_tombstoneEvicted hdrafts.1) hdrafts.2,
      gone_setInner _ _ _⟩
  case snapshotAll =>
    split at hstep <;> cases hstep
    exact ⟨{ hsheltered with drafts := hsheltered.shows }, rfl⟩
  case gcTombstones =>
    split at hstep <;> cases hstep
    rename_i marks snapshot hphase
    rw [hphase] at hdrafts
    exact ⟨hsheltered.setInner hgrounded (durable.alters_gcTombstones _ _ _) hdrafts, rfl⟩
  case readTombstones =>
    split at hstep <;> cases hstep
    rename_i marks snapshot hphase
    rw [hphase] at hdrafts
    exact ⟨hsheltered.setPhase hdrafts, rfl⟩
  case loadWal listing =>
    split at hstep
    case h_1 checkpoint hphase =>
      rw [hphase] at hdrafts
      rw [ite_none_right_eq_some, some.injEq] at hstep
      obtain ⟨_, rfl⟩ := hstep
      exact ⟨hsheltered.setPhase hdrafts, rfl⟩
    case h_2 => cases hstep
  case findSurvivors =>
    split at hstep <;> cases hstep
    rename_i checkpoint candidates hphase
    rw [hphase] at hdrafts
    exact ⟨hsheltered.setPhase hdrafts, rfl⟩
  case write =>
    split at hstep <;> cases hstep
    exact ⟨{ hsheltered with drafts := trivial }, rfl⟩

section Stored

variable {objects : AList fun _ : String => Int} {gone : List String} {sweep : Option ColdSweep}
variable {s : PersistedSnapshot}

section

variable (hstored : Stored durable objects gone sweep)
include hstored

theorem Stored.persistSnapshot
    (hobjects : ∀ entry ∈ s.databases.paths, ∃ lastModifiedMs ∈ objects.lookup entry.2,
      ∀ running ∈ sweep, running.cutoffMs < lastModifiedMs ∧
        ∀ item ∈ running.listed, item.1 = entry.2 → running.cutoffMs < item.2) :
    Stored { durable with snapshots := durable.snapshots ++ [s] } objects gone sweep := by
  have hlive :
      ∀ path, ({ durable with snapshots := durable.snapshots ++ [s] } : Durable).Live path →
      durable.Live path ∨ ∃ lastModifiedMs ∈ objects.lookup path,
        ∀ running ∈ sweep, running.cutoffMs < lastModifiedMs ∧
          ∀ item ∈ running.listed, item.1 = path → running.cutoffMs < item.2 := by
    rintro path ⟨⟨t, ht, hpath⟩, hremoves⟩
    rcases mem_concat.mp ht with hold | hnew
    · exact .inl ⟨⟨t, hold, hpath⟩, hremoves⟩
    · rw [hnew] at hpath
      obtain ⟨entry, hentry, rfl⟩ := mem_map.mp hpath
      exact .inr (hobjects entry hentry)
  refine ⟨hstored.apart, fun path hpath => ?_, fun running hrunning path hpath => ?_⟩
  · rcases hlive path hpath with hold | ⟨lastModifiedMs, hlookup, _⟩
    · exact hstored.present path hold
    · exact mem_iff_exists_lookup.mpr ⟨lastModifiedMs, hlookup⟩
  · rcases hlive path hpath with hold | ⟨lastModifiedMs, hlookup, hyoung⟩
    · exact hstored.young running hrunning path hold
    · refine .inr ⟨fun other hother => ?_, (hyoung running hrunning).2⟩
      rw [mem_unique hother hlookup]
      exact (hyoung running hrunning).1

theorem Stored.persistCompaction (c : String × PersistedSnapshot) :
    Stored { durable with compactions := durable.compactions ++ [c] } objects gone sweep := by
  have hlive : ∀ path, ({ durable with compactions := durable.compactions ++ [c] } : Durable).Live
      path → durable.Live path :=
    fun path hpath => ⟨hpath.1, fun hremoves => hpath.2 (hremoves.mono
      (durable.le_persistCompaction c))⟩
  exact ⟨hstored.apart, fun path hpath => hstored.present path (hlive path hpath),
    fun running hrunning path hpath => hstored.young running hrunning path (hlive path hpath)⟩

theorem Stored.putObject {nowMs : Int}
    (hclock : ∀ running ∈ sweep, running.cutoffMs < nowMs) (path : String) :
    Stored durable (objects.insert path nowMs) (gone.filter (· ≠ path)) sweep := by
  refine ⟨fun other hother hmem => ?_, fun other hlive => ?_,
    fun running hrunning other hlive => ?_⟩
  · obtain ⟨hgone, hne⟩ := mem_filter.mp hother
    rcases (AList.mem_insert _).mp hmem with rfl | hold
    · simp at hne
    · exact hstored.apart other hgone hold
  · exact (AList.mem_insert _).mpr (.inr (hstored.present other hlive))
  · by_cases hsame : other = path
    · subst hsame
      refine (hstored.young running hrunning other hlive).imp_right fun hyoung =>
        ⟨fun lastModifiedMs hlookup => ?_, hyoung.2⟩
      rw [AList.lookup_insert, mem_some_iff] at hlookup
      exact hlookup ▸ hclock running hrunning
    · rw [AList.lookup_insert_ne hsame]
      exact hstored.young running hrunning other hlive

theorem Stored.deleteObject (hdead : ¬durable.Live path) :
    Stored durable (objects.erase path) (path :: gone)
      (sweep.map fun running => { running with
        swept := running.swept + 1, listed := running.listed.filter (·.1 ≠ path) }) := by
  have hne : ∀ other, durable.Live other → other ≠ path := by
    rintro other hlive rfl
    exact hdead hlive
  refine ⟨fun other hother hmem => ?_, fun other hlive => ?_,
    fun running hrunning other hlive => ?_⟩
  · obtain ⟨hother', hold⟩ := AList.mem_erase.mp hmem
    rcases mem_cons.mp hother with rfl | hgone
    · exact hother' rfl
    · exact hstored.apart other hgone hold
  · exact AList.mem_erase.mpr ⟨hne other hlive, hstored.present other hlive⟩
  · obtain ⟨before, hbefore, rfl⟩ := map_eq_some_iff.mp hrunning
    rw [AList.lookup_erase_ne (hne other hlive)]
    exact (hstored.young before hbefore other hlive).imp_right fun hyoung =>
      ⟨hyoung.1, fun item hitem => hyoung.2 item (mem_filter.mp hitem).1⟩

/-- What is listed is as old as its object is. -/
theorem Stored.listObject {running : ColdSweep} (hsweep : sweep = some running)
    {lastModifiedMs : Int} (hlookup : objects.lookup path = some lastModifiedMs) :
    Stored durable objects gone
      (some { running with listed := (path, lastModifiedMs) :: running.listed }) := by
  refine ⟨hstored.apart, hstored.present, ?_⟩
  rintro _ ⟨⟩ other hlive
  refine (hstored.young running hsweep other hlive).imp_right fun hyoung => ⟨hyoung.1, ?_⟩
  refine forall_mem_cons.mpr ⟨?_, hyoung.2⟩
  rintro rfl
  exact hyoung.1 lastModifiedMs hlookup

/-- A sweep that begins finds live, or too young, what is live. -/
theorem Stored.beginSweep {cutoffMs : Int}
    {merged : PersistedSnapshot} (hshows : Shows durable mergedFolded merged)
    (hfolded : ∀ s ∈ durable.snapshots, .wal s ∈ mergedFolded ∨
      ∀ entry ∈ s.databases.paths, durable.Removes entry.2 ∨
        ∀ lastModifiedMs ∈ objects.lookup entry.2, cutoffMs < lastModifiedMs) :
    Stored durable objects gone
      (some { live := merged.databases.paths.map Prod.snd, cutoffMs := cutoffMs }) := by
  refine ⟨hstored.apart, hstored.present, ?_⟩
  rintro _ ⟨⟩ path ⟨⟨s, hs, hpath⟩, hremoves⟩
  obtain ⟨entry, hentry, rfl⟩ := mem_map.mp hpath
  rcases hfolded s hs with hmerged | hyoung
  · exact .inl ((hshows s hmerged entry hentry).resolve_left hremoves)
  · exact .inr ⟨(hyoung entry hentry).resolve_left hremoves, by simp⟩

theorem Stored.sweepAfter (action : CheckpointAction) :
    Stored durable objects gone (sweepAfter sweep action) := by
  cases action with
  | write => exact ⟨hstored.apart, hstored.present, by simp [ColdGc.sweepAfter]⟩
  | _ => exact hstored

end

end Stored

theorem inv_initial : Inv {} := by
  refine ⟨⟨by simp, by simp, by simp⟩, ⟨⟨?_, ?_, ?_, ?_, ?_⟩, by simp, ⟨?_, ?_, ?_⟩, trivial⟩,
    ⟨by simp, ?_, by simp⟩, by simp⟩
  all_goals simp [CompactorNode.inner, Files.paths, Durable.Live]

theorem Inv.cluster {action : ClusterAction} (hinv : Inv state)
    (hmay : state.MayPublish action) {node : CompactorNode}
    (hstep : state.node.step (.cluster action) = some node) : Inv { state with node := node } := by
  simp only [CompactorNode.step] at hstep
  split_ifs at hstep
  obtain ⟨cluster, hcluster, rfl⟩ := map_eq_some_iff.mp hstep
  have hwal : ∀ s, action = .publishWal s → s ∈ state.durable.snapshots := by
    rintro s rfl
    exact hmay
  have hcompaction : ∀ id s, action = .publishCompaction id s →
      (id, s) ∈ state.durable.compactions := by
    rintro id s rfl
    exact hmay.1
  obtain ⟨hpublishes, hviews⟩ :=
    hinv.sheltered.cluster hinv.grounded hwal hcompaction hcluster
  exact { hinv with
    sheltered := { hinv.sheltered with publishes := hpublishes, views := hviews } }

theorem Inv.checkpoint (hinv : Inv state)
    (hstep : state.checkpointStep action = some next) : Inv next := by
  obtain ⟨node, hnode, rfl⟩ := map_eq_some_iff.mp hstep
  obtain ⟨hsheltered, hgone⟩ := hinv.sheltered.checkpointStep hinv.grounded hinv.stored hnode
  refine ⟨hinv.grounded, hsheltered, ?_, fun running hrunning => ?_⟩
  · rw [hgone]
    exact hinv.stored.sweepAfter action
  · cases action with
    | write => simp [sweepAfter] at hrunning
    | _ => exact hinv.clock running hrunning

theorem inv_step {action : Action} (hinv : Inv state) (hallowed : state.FoldsInTime config action)
    (hstep : (machine config).step state action = some next) : Inv next := by
  cases action with
  | tick ms =>
    obtain rfl := some.inj hstep
    refine { hinv with clock := fun running hrunning => ?_ }
    have hlt := hinv.clock running hrunning
    change running.cutoffMs < state.nowMs + ms
    omega
  | putObject path =>
    obtain rfl := some.inj hstep
    exact { hinv with
      sheltered := { hinv.sheltered with }
      stored := hinv.stored.putObject hinv.clock path }
  | persistSnapshot s =>
    simp only [machine, step, ite_none_right_eq_some, some.injEq] at hstep
    obtain ⟨hgen1, rfl⟩ := hstep
    exact ⟨hinv.grounded.persistSnapshot hgen1 hallowed.1,
      hinv.sheltered.mono ⟨subset_append_left _ _, List.Subset.refl _⟩,
      hinv.stored.persistSnapshot hallowed.2, hinv.clock⟩
  | persistCompaction id s =>
    simp only [machine, step, ite_none_right_eq_some, some.injEq] at hstep
    obtain ⟨⟨_, houtputs⟩, rfl⟩ := hstep
    exact ⟨hinv.grounded.persistCompaction houtputs,
      hinv.sheltered.mono (state.durable.le_persistCompaction (id, s)),
      hinv.stored.persistCompaction (id, s), hinv.clock⟩
  | cluster action =>
    simp only [machine, step, ite_none_right_eq_some, map_eq_some_iff] at hstep
    obtain ⟨hmay, node, hnode, rfl⟩ := hstep
    exact hinv.cluster hmay hnode
  | publishWatermarks =>
    obtain ⟨node, hnode, rfl⟩ := map_eq_some_iff.mp hstep
    simp only [CompactorNode.step, ite_none_right_eq_some, some.injEq] at hnode
    obtain ⟨_, rfl⟩ := hnode
    exact { hinv with sheltered := { hinv.sheltered with } }
  | addOutputs id s =>
    simp only [machine, step, ite_none_right_eq_some, some.injEq] at hstep
    obtain ⟨⟨hdurable, _⟩, rfl⟩ := hstep
    have hsheltered := hinv.sheltered.setInner hinv.grounded
      (Durable.alters_addOutputs hinv.grounded hdurable) hinv.sheltered.drafts
    exact { hinv with
      sheltered := { hsheltered with
        outputs := forall_mem_cons.mpr ⟨hdurable, hsheltered.outputs⟩ } }
  | removeInputs id s =>
    simp only [machine, step, ite_none_right_eq_some, some.injEq] at hstep
    obtain ⟨⟨hadded, _⟩, rfl⟩ := hstep
    have hdurable := hinv.sheltered.outputs _ hadded
    exact { hinv with
      sheltered := { hinv.sheltered.setInner hinv.grounded (Durable.alters_removeInputs hdurable)
        hinv.sheltered.drafts with } }
  | checkpoint action =>
    simp only [machine, step] at hstep
    split_ifs at hstep
    exact hinv.checkpoint hstep
  | beginSweep =>
    simp only [machine, step] at hstep
    split at hstep
    case h_1 checkpoint hphase hsweep =>
      obtain rfl := some.inj hstep
      have hdrafts := hinv.sheltered.drafts
      rw [hphase] at hdrafts
      refine ⟨hinv.grounded, hinv.sheltered, hinv.stored.beginSweep hdrafts hallowed, ?_⟩
      rintro _ ⟨⟩
      have hpos := config.window_pos
      change state.nowMs - config.keepGenerationsTrailingWindow < state.nowMs
      omega
    case h_2 => cases hstep
  | listObject path =>
    simp only [machine, step] at hstep
    split at hstep
    case h_1 running lastModifiedMs hsweep hlookup =>
      simp only [ite_none_right_eq_some, some.injEq] at hstep
      obtain ⟨_, rfl⟩ := hstep
      refine { hinv with stored := hinv.stored.listObject hsweep hlookup, clock := ?_ }
      rintro _ ⟨⟩
      exact hinv.clock running hsweep
    case h_2 => cases hstep
  | sweepObject path =>
    simp only [machine, step, ite_none_right_eq_some, some.injEq] at hstep
    obtain ⟨hmay, rfl⟩ := hstep
    refine ⟨hinv.grounded, ?_, hinv.stored.deleteObject (hinv.neverSweepsLive path hmay), ?_⟩
    · exact { hinv.sheltered with }
    · intro running hrunning
      obtain ⟨before, hbefore, rfl⟩ := map_eq_some_iff.mp hrunning
      exact hinv.clock before hbefore

/-- The sweep never deletes a live file in a run in which snapshots are folded in time. -/
theorem neverSweepsLive_of_foldsInTime (config : ColdGcConfig) (state : ColdGc)
    (hreachable : (machine config).Reachable (fun state action => state.FoldsInTime config action)
      state) :
    state.NeverSweepsLive config := by
  have hinv : Inv state := hreachable.invariant (fun _ hinitial => hinitial ▸ inv_initial)
    fun _ _ _ hinv hallowed hstep => inv_step hinv hallowed hstep
  exact hinv.neverSweepsLive

section Example

open Streams

def oneSecond : ColdGcConfig := ⟨1000, 5000, by decide⟩

def snapshotOf (seq : Nat) : PersistedSnapshot := writerManifest seq [writerFile seq 0]

/-- An object is put and the snapshot that lists it made durable. -/
def persistFile (seq : Nat) : List Action :=
  [.putObject (writerFile seq 0).path, .persistSnapshot (snapshotOf seq)]

/-- A tick of the poller that finds these writers' manifests. -/
def foldWal (listing : List PersistedSnapshot) : List Action :=
  [.cluster (.poll (.loadWal listing [])), .cluster (.poll (.loadCompactions [] []))] ++
    listing.map (fun _ => .cluster (.poll .fold)) ++ [.cluster (.poll .gc), .publishWatermarks]

/-- The checkpoint writer up to its sweep, with nothing to evict. -/
def checkpointToSweep (listing : List PersistedSnapshot) : List Action :=
  [.checkpoint .capture, .checkpoint .readRefs, .checkpoint .listObjects, .checkpoint .snapshotAll,
    .checkpoint .gcTombstones, .checkpoint .readTombstones, .checkpoint (.loadWal listing),
    .checkpoint .findSurvivors, .beginSweep]

def firstFileRemoved : String × PersistedSnapshot :=
  compactionOf "019b7000-0000-7000-8000-000000000001" [writerFile 1 0]

/-- The compaction of the first file is made durable and applied to the view. -/
def compactFirstFile : List Action :=
  [.cluster (.mint firstFileRemoved.1 firstFileRemoved.2),
    .persistCompaction firstFileRemoved.1 firstFileRemoved.2,
    .addOutputs firstFileRemoved.1 firstFileRemoved.2,
    .removeInputs firstFileRemoved.1 firstFileRemoved.2]

theorem initial_coldGc_reachable {allowed : ColdGc → Action → Prop} :
    (machine oneSecond).Reachable allowed {} :=
  .initial rfl

set_option maxRecDepth 2000 in
/-- Two files are folded and one is compacted away. The sweep lists both, and may delete that one
but not the other. -/
theorem neverSweepsLive_of_foldsInTime_compacted :
    ∃ state, (machine oneSecond).Reachable
        (fun state action => state.FoldsInTime oneSecond action) state ∧
      state.MaySweep oneSecond (writerFile 1 0).path ∧
      state.durable.Live (writerFile 2 0).path ∧ state.NeverSweepsLive oneSecond := by
  obtain ⟨state, hreachable, hmay, hlive⟩ : ∃ state, (machine oneSecond).Reachable
      (fun state action => state.FoldsInTime oneSecond action) state ∧
        state.MaySweep oneSecond (writerFile 1 0).path ∧
          state.durable.Live (writerFile 2 0).path :=
    initial_coldGc_reachable.exists_of_exec
      (persistFile 1 ++ persistFile 2 ++
        [.cluster (.publishWal (snapshotOf 1)), .cluster (.publishWal (snapshotOf 2))] ++
        foldWal [snapshotOf 1, snapshotOf 2] ++ compactFirstFile ++ [.tick 2000] ++
        checkpointToSweep [snapshotOf 1, snapshotOf 2] ++
        [.listObject (writerFile 1 0).path, .listObject (writerFile 2 0).path])
      _ (by decide +kernel) (by decide +kernel)
  exact ⟨state, hreachable, hmay, hlive, neverSweepsLive_of_foldsInTime _ _ hreachable⟩

/-- The second snapshot is durable but its publish has failed, so that its file is not in the view
of the compactor when the window has passed. -/
theorem unpublished_file_swept :
    ∃ state, (machine oneSecond).Reachable Machine.Unrestricted state ∧
      state.MaySweep oneSecond (writerFile 2 0).path ∧
      state.durable.Live (writerFile 2 0).path ∧ ¬state.NeverSweepsLive oneSecond := by
  obtain ⟨state, hreachable, hmay, hlive⟩ := initial_coldGc_reachable.exists_of_run
    (persistFile 1 ++ [.cluster (.publishWal (snapshotOf 1))] ++ persistFile 2 ++
      foldWal [snapshotOf 1] ++ [.tick 2000] ++ checkpointToSweep [snapshotOf 1] ++
      [.listObject (writerFile 2 0).path])
    (fun state => state.MaySweep oneSecond (writerFile 2 0).path ∧
      state.durable.Live (writerFile 2 0).path) (by decide +kernel)
  exact ⟨state, hreachable, hmay, hlive, fun hnever => hnever _ hmay hlive⟩

end Example

end ColdGc

end RefluxDb.Write
